import Mathlib.Data.List.Induction
import Mathlib.Tactic.Positivity
import Mathlib.Tactic.Ring
import Perpetua.Lib.IpAddress

/-!
# Texts of IP addresses

An address is read back from its text, for IPv4 and for the compressed form of IPv6. A mask keeps the
high bits of an address.
-/

namespace IpAddress

/-! ## Digits -/

variable {base : ℕ}

@[simp] theorem length_digits (n x : ℕ) : (digits base n x).length = n := by
  induction n generalizing x with
  | zero => rfl
  | succ n ih => simp [digits, ih]

theorem digits_lt (hbase : 0 < base) (n x : ℕ) : ∀ d ∈ digits base n x, d < base := by
  induction n generalizing x with
  | zero => exact List.forall_mem_nil _
  | succ n ih =>
      intro d hd
      rcases List.mem_append.mp hd with hd | hd
      · exact ih _ d hd
      · rw [List.mem_singleton.mp hd]
        exact Nat.mod_lt x hbase

@[simp] theorem ofDigits_append_singleton (ds : List ℕ) (d : ℕ) :
    ofDigits base (ds ++ [d]) = ofDigits base ds * base + d := by
  simp [ofDigits]

theorem ofDigits_digits (n x : ℕ) : ofDigits base (digits base n x) = x % base ^ n := by
  induction n generalizing x with
  | zero => simp [digits, ofDigits, Nat.mod_one]
  | succ n ih =>
      rw [digits, ofDigits_append_singleton, ih, pow_succ', Nat.mod_mul]
      ring

theorem ofDigits_lt {ds : List ℕ} (hds : ∀ d ∈ ds, d < base) :
    ofDigits base ds < base ^ ds.length := by
  induction ds using List.reverseRecOn with
  | nil => simp [ofDigits]
  | append_singleton ds d ih =>
      have hhigh := ih fun d' hd' => hds d' (List.mem_append_left _ hd')
      have hlow : d < base := hds d (by simp)
      rw [ofDigits_append_singleton, List.length_append, List.length_singleton, pow_succ]
      calc ofDigits base ds * base + d < ofDigits base ds * base + base := by omega
        _ = (ofDigits base ds + 1) * base := by ring
        _ ≤ base ^ ds.length * base := Nat.mul_le_mul_right _ hhigh

/-! ## Masks -/

theorem land_netmask {width prefixlen x : ℕ} (hx : x < 2 ^ width) (hlength : prefixlen ≤ width) :
    x &&& netmask width prefixlen = x / 2 ^ (width - prefixlen) * 2 ^ (width - prefixlen) := by
  apply Nat.eq_of_testBit_eq
  intro i
  rw [Nat.testBit_land, netmask, Nat.testBit_xor, Nat.testBit_shiftRight,
    Nat.testBit_two_pow_sub_one, Nat.testBit_two_pow_sub_one, Nat.testBit_mul_two_pow,
    Nat.testBit_div_two_pow]
  by_cases hi : i < width
  · by_cases hkept : width - prefixlen ≤ i
    · have hlow : ¬prefixlen + i < width := by omega
      simp [hi, hkept, hlow]
    · have hlow : prefixlen + i < width := by omega
      simp [hi, hkept, hlow]
  · have hzero : x.testBit i = false :=
      Nat.testBit_lt_two_pow (hx.trans_le (Nat.pow_le_pow_right (by decide) (Nat.le_of_not_lt hi)))
    have hlow : ¬prefixlen + i < width := by omega
    have hkept : width - prefixlen ≤ i := by omega
    simp [hi, hzero, hlow, Nat.sub_add_cancel hkept]

theorem land_netmask_lt {width x : ℕ} (hx : x < 2 ^ width) (prefixlen : ℕ) :
    x &&& netmask width prefixlen < 2 ^ width :=
  Nat.and_le_left.trans_lt hx

/-- A mask is idempotent. -/
@[simp] theorem land_netmask_land (width prefixlen x : ℕ) :
    x &&& netmask width prefixlen &&& netmask width prefixlen = x &&& netmask width prefixlen := by
  rw [Nat.land_assoc, Nat.and_self]

/-- A longer mask does not change what a shorter one keeps. -/
theorem land_netmask_land_of_le {width short long x : ℕ} (hx : x < 2 ^ width) (hle : short ≤ long)
    (hlong : long ≤ width) :
    x &&& netmask width long &&& netmask width short = x &&& netmask width short := by
  have hsplit : 2 ^ (width - short) = 2 ^ (width - long) * 2 ^ (long - short) := by
    rw [← pow_add]
    congr 1
    omega
  rw [land_netmask (land_netmask_lt hx long) (hle.trans hlong), land_netmask hx hlong,
    land_netmask hx (hle.trans hlong), hsplit, ← Nat.div_div_eq_div_mul, ← Nat.div_div_eq_div_mul,
    Nat.mul_div_cancel _ (by positivity)]

/-! ## Lists of parts -/

theorem mapM_map_of_forall {α β : Type} {f : β → α} {g : α → Option β} {l : List β}
    (h : ∀ x ∈ l, g (f x) = some x) : (l.map f).mapM g = some l := by
  induction l with
  | nil => rfl
  | cons x l ih =>
      have htail := ih fun y hy => h y (List.mem_cons_of_mem _ hy)
      simp [List.mapM_cons, h x (by simp), htail]

theorem forall_of_mapM {α β : Type} {g : α → Option β} {l : List α} {ys : List β}
    (h : l.mapM g = some ys) : l.length = ys.length ∧ (∀ x ∈ l, ∃ y, g x = some y) ∧
      ∀ y ∈ ys, ∃ x ∈ l, g x = some y := by
  induction l generalizing ys with
  | nil =>
      obtain rfl : ys = [] := by simpa using h.symm
      simp
  | cons x l ih =>
      simp only [List.mapM_cons, Option.bind_eq_bind, Option.bind_eq_some_iff, Option.pure_def,
        Option.some.injEq] at h
      obtain ⟨y, hy, ys, hys, rfl⟩ := h
      obtain ⟨hlen, hall, hback⟩ := ih hys
      refine ⟨by simp [hlen], ?_, ?_⟩
      · intro x' hx'
        rcases List.mem_cons.mp hx' with rfl | hx'
        · exact ⟨y, hy⟩
        · exact hall x' hx'
      · intro y' hy'
        rcases List.mem_cons.mp hy' with rfl | hy'
        · exact ⟨x, by simp, hy⟩
        · obtain ⟨x', hx', heq⟩ := hback y' hy'
          exact ⟨x', List.mem_cons_of_mem _ hx', heq⟩

theorem mem_of_mem_intercalate {sep c : Char} {parts : List (List Char)}
    (h : c ∈ [sep].intercalate parts) : c = sep ∨ ∃ part ∈ parts, c ∈ part := by
  induction parts with
  | nil => cases h
  | cons part parts ih =>
      cases parts with
      | nil => exact Or.inr ⟨part, by simp, by simpa using h⟩
      | cons next parts =>
          rw [List.intercalate_cons_cons, List.mem_append, List.mem_append, List.mem_singleton] at h
          rcases h with (h | rfl) | h
          · exact Or.inr ⟨part, by simp, h⟩
          · exact Or.inl rfl
          · rcases ih h with rfl | ⟨part', hmem, hc⟩
            · exact Or.inl rfl
            · exact Or.inr ⟨part', List.mem_cons_of_mem _ hmem, hc⟩

/-! ## IPv4 -/

theorem parseOctet_toDigits : ∀ n < 256, parseOctet (Nat.toDigits 10 n) = some n := by
  decide +kernel

theorem parseOctet_le {cs : List Char} {n : ℕ} (h : parseOctet cs = some n) :
    n < 256 ∧ ∀ c ∈ cs, c.isDigit := by
  unfold parseOctet at h
  split at h
  · rename_i hcs
    obtain ⟨hnumeral, -, -, hle⟩ := hcs
    obtain rfl := Option.some.inj h
    rw [isNumeral, Bool.and_eq_true, List.all_eq_true] at hnumeral
    exact ⟨Nat.lt_succ_of_le hle, hnumeral.2⟩
  · cases h

theorem parseIpv4_eq_some {cs : List Char} {ip : ℕ} (h : parseIpv4 cs = some ip) :
    ip < 2 ^ 32 ∧ ∀ c ∈ cs, c.isDigit ∨ c = '.' := by
  unfold parseIpv4 at h
  dsimp only at h
  split at h
  · rename_i hfour
    obtain ⟨octets, hoctets, rfl⟩ := Option.map_eq_some_iff.mp h
    obtain ⟨hlen, hall, hback⟩ := forall_of_mapM hoctets
    constructor
    · have hlt : ∀ d ∈ octets, d < 256 := fun d hd => by
        obtain ⟨part, -, hpart⟩ := hback d hd
        exact (parseOctet_le hpart).1
      have hbound := ofDigits_lt hlt
      rwa [← hlen, hfour] at hbound
    · intro c hc
      rw [← @List.intercalate_splitOn _ cs _ _ '.'] at hc
      rcases mem_of_mem_intercalate hc with rfl | ⟨part, hpart, hc⟩
      · exact Or.inr rfl
      · obtain ⟨n, hn⟩ := hall part hpart
        exact Or.inl ((parseOctet_le hn).2 c hc)
  · cases h

theorem notMem_of_parseIpv4 {cs : List Char} {ip : ℕ} (h : parseIpv4 cs = some ip) {c : Char}
    (hdigit : c.isDigit = false) (hdot : c ≠ '.') : c ∉ cs := by
  intro hmem
  rcases (parseIpv4_eq_some h).2 c hmem with hc | hc
  · rw [hdigit] at hc
    cases hc
  · exact hdot hc

theorem digits_not_mem {n : ℕ} {c : Char} (hc : c.isDigit = false) : c ∉ Nat.toDigits 10 n := by
  intro h
  rw [Nat.isDigit_of_mem_toDigits (by decide) (by decide) h] at hc
  cases hc

theorem parseIpv4_ipv4Text {ip : ℕ} (hip : ip < 2 ^ 32) : parseIpv4 (ipv4Text ip) = some ip := by
  have hsplit : (ipv4Text ip).splitOn '.' = (digits 256 4 ip).map (Nat.toDigits 10) := by
    apply List.splitOn_intercalate
    · intro part hpart
      obtain ⟨n, -, rfl⟩ := List.mem_map.mp hpart
      exact digits_not_mem (by decide)
    · simp [digits]
  have hparse : ((digits 256 4 ip).map (Nat.toDigits 10)).mapM parseOctet = some (digits 256 4 ip) :=
    mapM_map_of_forall fun n hn => parseOctet_toDigits n (digits_lt (by decide) _ _ n hn)
  have hvalue : ofDigits 256 (digits 256 4 ip) = ip := by
    rw [ofDigits_digits]
    exact Nat.mod_eq_of_lt hip
  unfold parseIpv4
  dsimp only
  rw [hsplit, hparse, List.length_map, length_digits, if_pos rfl, Option.map_some, hvalue]

/-! ## IPv6 -/

theorem isHexDigit_digitChar : ∀ d < 16, isHexDigit (Nat.digitChar d) ∧ hexValue (Nat.digitChar d) = d := by
  decide

theorem mem_toDigits_hex {n : ℕ} : ∀ c ∈ Nat.toDigits 16 n, isHexDigit c := by
  induction n using Nat.strong_induction_on with
  | _ n ih =>
      intro c hc
      by_cases hn : n < 16
      · rw [Nat.toDigits_of_lt_base hn, List.mem_singleton] at hc
        rw [hc]
        exact (isHexDigit_digitChar n hn).1
      · rw [Nat.toDigits_of_base_le (by decide) (Nat.le_of_not_lt hn), List.mem_append,
          List.mem_singleton] at hc
        rcases hc with hc | rfl
        · exact ih (n / 16) (by omega) c hc
        · exact (isHexDigit_digitChar _ (Nat.mod_lt n (by decide))).1

theorem ofHex_toDigits (n : ℕ) : ofHex (Nat.toDigits 16 n) = n := by
  induction n using Nat.strong_induction_on with
  | _ n ih =>
      by_cases hn : n < 16
      · rw [Nat.toDigits_of_lt_base hn]
        simp [ofHex, ofDigits, (isHexDigit_digitChar n hn).2]
      · have hhigh := ih (n / 16) (by omega)
        have hlow := (isHexDigit_digitChar _ (Nat.mod_lt n (show 0 < 16 by decide))).2
        unfold ofHex at hhigh ⊢
        rw [Nat.toDigits_of_base_le (by decide) (Nat.le_of_not_lt hn), List.map_append,
          List.map_singleton, ofDigits_append_singleton, hhigh, hlow]
        exact Nat.div_add_mod' n 16

theorem parseHextet_toDigits {n : ℕ} (hn : n < 65536) :
    parseHextet (Nat.toDigits 16 n) = some n := by
  have hlen : (Nat.toDigits 16 n).length ≤ 4 :=
    (Nat.length_toDigits_le_iff (by decide) (by decide)).mpr hn
  unfold parseHextet
  rw [if_pos ⟨Nat.toDigits_ne_nil, List.all_eq_true.mpr mem_toDigits_hex, hlen⟩, ofHex_toDigits]

/-- How the parts are read where an empty part stands for the zeros. -/
theorem skipZeros_of_empty (first : List Char) {before behind : List (List Char)}
    (hbehind : behind ≠ []) (hbefore : [] ∉ before) (hinner : [] ∉ behind.dropLast) :
    skipZeros (first :: (before ++ [] :: behind)) = placeZeros (first :: before) behind := by
  have htail : (first :: (before ++ [] :: behind)).tail.dropLast = before ++ [] :: behind.dropLast := by
    rw [List.tail_cons, List.dropLast_append_of_ne_nil (by simp), List.dropLast_cons_of_ne_nil hbehind]
  have hcount : (before ++ [] :: behind.dropLast).count [] = 1 := by
    simp [List.count_eq_zero_of_not_mem hbefore, List.count_eq_zero_of_not_mem hinner]
  have hidx : (before ++ [] :: behind.dropLast).idxOf [] = before.length := by
    rw [List.idxOf_append_of_notMem hbefore]
    simp
  have htake : (first :: (before ++ [] :: behind)).take (before.length + 1) = first :: before := by
    simp
  have hdrop : (first :: (before ++ [] :: behind)).drop (before.length + 1 + 1) = behind := by
    simp
  unfold skipZeros
  rw [htail]
  dsimp only
  rw [hcount, hidx]
  change placeZeros (List.take _ _) (List.drop _ _) = _
  rw [htake, hdrop]

/-- The run found consists of zeros. -/
structure ZeroRun.Marks (run : ZeroRun) (hextets before behind : List (List Char)) : Prop where
  eq : hextets = before ++ List.replicate run.len ['0'] ++ behind
  start : before.length = run.start

theorem ZeroRun.Marks.take {run : ZeroRun} {hextets before behind : List (List Char)}
    (h : run.Marks hextets before behind) : hextets.take run.start = before := by
  rw [h.eq, ← h.start, List.append_assoc]
  simp

theorem ZeroRun.Marks.drop {run : ZeroRun} {hextets before behind : List (List Char)}
    (h : run.Marks hextets before behind) : hextets.drop (run.start + run.len) = behind := by
  rw [h.eq, ← h.start]
  exact List.drop_left' (by simp)

theorem ZeroRun.Marks.end_iff {run : ZeroRun} {hextets before behind : List (List Char)}
    (h : run.Marks hextets before behind) :
    run.start + run.len = hextets.length ↔ behind = [] := by
  rw [h.eq, ← h.start]
  simp

theorem longestRun_marks (hextets : List (List Char)) :
    ∃ before behind, (longestRun hextets).Marks hextets before behind := by
  have hfold : (∃ before behind,
        (hextets.zipIdx.foldl ZeroRun.next ({}, {})).1.Marks hextets before behind) ∧
      ((hextets.zipIdx.foldl ZeroRun.next ({}, {})).2.len ≠ 0 → ∃ before,
        (hextets.zipIdx.foldl ZeroRun.next ({}, {})).2.Marks hextets before []) := by
    induction hextets using List.reverseRecOn with
    | nil => exact ⟨⟨[], [], rfl, rfl⟩, fun h => absurd rfl h⟩
    | append_singleton hextets hextet ih =>
        rw [List.zipIdx_append, List.foldl_append]
        simp only [List.zipIdx_singleton, List.foldl_cons, List.foldl_nil, Nat.zero_add]
        generalize hextets.zipIdx.foldl ZeroRun.next ({}, {}) = runs at ih
        obtain ⟨⟨before, behind, hbest⟩, hcurrent⟩ := ih
        have hkept : runs.1.Marks (hextets ++ [hextet]) before (behind ++ [hextet]) :=
          ⟨by rw [← List.append_assoc, ← hbest.eq], hbest.start⟩
        unfold ZeroRun.next
        split
        · rename_i hzero
          obtain rfl : hextet = ['0'] := hzero
          dsimp only
          have hends : ∃ before,
              (runs.2.extend hextets.length).Marks (hextets ++ [['0']]) before [] := by
            unfold ZeroRun.extend
            split
            · exact ⟨hextets, by simp, rfl⟩
            · rename_i hlen
              obtain ⟨start, hruns⟩ := hcurrent hlen
              refine ⟨start, ?_, hruns.start⟩
              rw [hruns.eq, List.replicate_succ']
              simp
          refine ⟨?_, fun _ => hends⟩
          split
          · exact ⟨hends.choose, [], hends.choose_spec⟩
          · exact ⟨before, _, hkept⟩
        · exact ⟨⟨before, _, hkept⟩, fun h => absurd rfl h⟩
  exact hfold.1

/-- What is compressed is a run of at least two zeros. -/
theorem compressHextets_cases (hextets : List (List Char)) :
    compressHextets hextets = hextets ∨ ∃ before zeros behind, 1 < zeros ∧
      hextets = before ++ List.replicate zeros ['0'] ++ behind ∧
      compressHextets hextets = (if before = [] then [[]] else []) ++ before ++ [[]] ++
        (behind ++ if behind = [] then [[]] else []) := by
  obtain ⟨before, behind, hmarks⟩ := longestRun_marks hextets
  by_cases hlong : 1 < (longestRun hextets).len
  · refine Or.inr ⟨before, _, behind, hlong, hmarks.eq, ?_⟩
    have hstart : (longestRun hextets).start = 0 ↔ before = [] := by
      rw [← hmarks.start, List.length_eq_zero_iff]
    unfold compressHextets
    simp only [if_pos hlong, hmarks.take, hmarks.drop, hstart, hmarks.end_iff]
  · exact Or.inl (by simp [compressHextets, hlong])

theorem skipZeros_compressHextets {hextets : List (List Char)} (hlen : hextets.length = 8)
    (hne : [] ∉ hextets) :
    3 ≤ (compressHextets hextets).length ∧ (compressHextets hextets).length ≤ 9 ∧
      (∀ part ∈ compressHextets hextets, part = [] ∨ part ∈ hextets) ∧
      ∃ high zeros low, skipZeros (compressHextets hextets) = some (high, zeros, low) ∧
        hextets = high ++ List.replicate zeros ['0'] ++ low := by
  rcases compressHextets_cases hextets with hsame | ⟨before, zeros, behind, hzeros, rfl, hparts⟩
  · rw [hsame]
    refine ⟨by omega, by omega, fun part hpart => Or.inr hpart, hextets, 0, [], ?_, by simp⟩
    have hinner : hextets.tail.dropLast.count [] = 0 :=
      List.count_eq_zero_of_not_mem fun hmem =>
        hne (List.mem_of_mem_tail (List.mem_of_mem_dropLast hmem))
    unfold skipZeros
    dsimp only
    rw [hinner]
    refine if_pos ⟨hlen, fun hhead => hne (List.mem_of_head? hhead), fun hlast => ?_⟩
    exact hne (List.mem_of_getLast? hlast)
  · rw [hparts]
    simp only [List.length_append, List.length_replicate] at hlen
    have hbefore : [] ∉ before := fun hmem => hne (by simp [hmem])
    have hbehind : [] ∉ behind := fun hmem => hne (by simp [hmem])
    have hinner : [] ∉ behind.dropLast := fun hmem => hbehind (List.mem_of_mem_dropLast hmem)
    have hlast : behind.getLast? ≠ some [] := fun hlast => hbehind (List.mem_of_getLast? hlast)
    have hempty (l : List (List Char)) : (if l = [] then [[]] else ([] : List (List Char))).length =
        if l.length = 0 then 1 else 0 := by
      cases l <;> rfl
    refine ⟨?_, ?_, ?_, before, zeros, behind, ?_, rfl⟩
    · simp only [List.length_append, hempty, List.length_singleton]
      split_ifs <;> omega
    · simp only [List.length_append, hempty, List.length_singleton]
      split_ifs <;> omega
    · intro part hpart
      simp only [List.mem_append, List.mem_ite_nil_right, List.mem_singleton] at hpart
      simp only [List.mem_append]
      tauto
    · -- A run of zeros at an end of the address takes the end's colon with it.
      cases before with
      | nil =>
          cases behind with
          | nil =>
              obtain rfl : zeros = 8 := by simpa using hlen
              rfl
          | cons next behind =>
              have hskip := skipZeros_of_empty [] (List.cons_ne_nil next behind) List.not_mem_nil
                hinner
              have hshort : behind.length + 1 ≤ 7 := by simp at hlen; omega
              have hzeros : 8 - (behind.length + 1) = zeros := by simp at hlen; omega
              simpa [placeZeros, hlast, hshort, hzeros] using hskip
      | cons first before =>
          have hfirst : first ≠ [] := fun h => hbefore (by simp [h])
          have hrest : [] ∉ before := fun hmem => hbefore (List.mem_cons_of_mem _ hmem)
          cases behind with
          | nil =>
              have hskip := skipZeros_of_empty first (List.cons_ne_nil [] []) hrest (by simp)
              have hshort : before.length + 1 ≤ 7 := by simp at hlen; omega
              have hzeros : 8 - (before.length + 1) = zeros := by simp at hlen; omega
              simpa [placeZeros, hfirst, hshort, hzeros] using hskip
          | cons next behind =>
              have hskip := skipZeros_of_empty first (List.cons_ne_nil next behind) hrest hinner
              have hshort : before.length + 1 + (behind.length + 1) ≤ 7 := by simp at hlen; omega
              have hzeros : 8 - (before.length + 1 + (behind.length + 1)) = zeros := by
                simp at hlen
                omega
              simpa [placeZeros, hfirst, hlast, hshort, hzeros] using hskip

theorem embedIpv4_of_plain {parts : List (List Char)} (h : ∀ part ∈ parts, '.' ∉ part) :
    embedIpv4 parts = some parts := by
  unfold embedIpv4
  cases hlast : parts.getLast? with
  | none => simp
  | some last => simp [h last (List.mem_of_getLast? hlast)]

theorem mapM_append_eq_some {α β : Type} {g : α → Option β} {l l' : List α} {ys : List β}
    (h : (l ++ l').mapM g = some ys) :
    ∃ ds es, l.mapM g = some ds ∧ l'.mapM g = some es ∧ ys = ds ++ es := by
  simp only [List.mapM_append, Option.bind_eq_bind, Option.bind_eq_some_iff, Option.pure_def,
    Option.some.injEq] at h
  obtain ⟨ds, hds, es, hes, rfl⟩ := h
  exact ⟨ds, es, hds, hes, rfl⟩

theorem hextetText_plain {n : ℕ} {c : Char} (hc : isHexDigit c = false) : c ∉ Nat.toDigits 16 n := by
  intro h
  rw [mem_toDigits_hex c h] at hc
  cases hc

/-- The texts of the hextets of an address. -/
theorem hextets_text (ip : ℕ) : [] ∉ (digits 65536 8 ip).map (Nat.toDigits 16) ∧
    ((digits 65536 8 ip).map (Nat.toDigits 16)).mapM parseHextet = some (digits 65536 8 ip) := by
  constructor
  · intro hmem
    obtain ⟨n, -, hn⟩ := List.mem_map.mp hmem
    exact Nat.toDigits_ne_nil hn
  · exact mapM_map_of_forall fun n hn => parseHextet_toDigits (digits_lt (by decide) _ _ n hn)

theorem compressHextets_plain {ip : ℕ} {c : Char} (hc : isHexDigit c = false) :
    ∀ part ∈ compressHextets ((digits 65536 8 ip).map (Nat.toDigits 16)), c ∉ part := by
  intro part hpart
  have hparts := (skipZeros_compressHextets (by simp) (hextets_text ip).1).2.2.1 part hpart
  rcases hparts with rfl | hmem
  · exact List.not_mem_nil
  · obtain ⟨n, -, rfl⟩ := List.mem_map.mp hmem
    exact hextetText_plain hc

theorem ipv6Text_plain (ip : ℕ) {c : Char} (hc : isHexDigit c = false) (hcolon : c ≠ ':') :
    c ∉ ipv6Text ip := by
  intro hmem
  rcases mem_of_mem_intercalate hmem with h | ⟨part, hpart, hmem⟩
  · exact hcolon h
  · exact compressHextets_plain hc part hpart hmem

theorem parseIpv6_ipv6Text {ip : ℕ} (hip : ip < 2 ^ 128) : parseIpv6 (ipv6Text ip) = some ip := by
  obtain ⟨hne, hvalues⟩ := hextets_text ip
  obtain ⟨hthree, hnine, -, high, zeros, low, hskip, heq⟩ :=
    skipZeros_compressHextets (by simp) hne
  have hsplit : (ipv6Text ip).splitOn ':' =
      compressHextets ((digits 65536 8 ip).map (Nat.toDigits 16)) := by
    apply List.splitOn_intercalate
    · exact compressHextets_plain (by decide)
    · exact List.ne_nil_of_length_pos (by omega)
  rw [heq] at hvalues
  obtain ⟨ds, es, hds, hlow, hdigits⟩ := mapM_append_eq_some hvalues
  obtain ⟨hs, zs, hhigh, hzs, rfl⟩ := mapM_append_eq_some hds
  have hzero : (List.replicate zeros ['0']).mapM parseHextet = some (List.replicate zeros 0) := by
    have hmap : List.replicate zeros ['0'] = (List.replicate zeros 0).map (Nat.toDigits 16) := by
      rw [List.map_replicate, Nat.toDigits_zero]
    rw [hmap]
    refine mapM_map_of_forall fun n hn => ?_
    rw [List.eq_of_mem_replicate hn]
    rfl
  obtain rfl : zs = List.replicate zeros 0 := Option.some.inj (hzs.symm.trans hzero)
  have hvalue : hextetsValue (compressHextets ((digits 65536 8 ip).map (Nat.toDigits 16))) =
      some (ofDigits 65536 (hs ++ List.replicate zeros 0 ++ es)) := by
    simp only [hextetsValue, hskip, hhigh, hlow, Option.bind_eq_bind, Option.bind_some]
  unfold parseIpv6
  dsimp only
  rw [hsplit, if_neg (Nat.not_lt.mpr hthree), embedIpv4_of_plain (compressHextets_plain (by decide)),
    Option.bind_some, if_neg (Nat.not_lt.mpr hnine), hvalue]
  rw [← hdigits, ofDigits_digits]
  exact congrArg some (Nat.mod_eq_of_lt hip)

theorem hexValue_lt {c : Char} (hc : isHexDigit c) : hexValue c < 16 := by
  simp only [isHexDigit, Bool.or_eq_true, Bool.and_eq_true, decide_eq_true_eq, Char.le_def,
    UInt32.le_iff_toNat_le, Char.isDigit, ge_iff_le] at hc
  simp only [hexValue, Char.isDigit, Bool.and_eq_true, decide_eq_true_eq, Char.le_def,
    UInt32.le_iff_toNat_le, ge_iff_le]
  simp only [Char.toNat]
  simp at hc ⊢
  split_ifs <;> omega

theorem parseHextet_lt {cs : List Char} {n : ℕ} (h : parseHextet cs = some n) : n < 65536 := by
  unfold parseHextet at h
  split at h
  · rename_i hcs
    obtain ⟨-, hdigits, hlen⟩ := hcs
    obtain rfl := Option.some.inj h
    have hlt : ∀ d ∈ cs.map hexValue, d < 16 := by
      intro d hd
      obtain ⟨c, hc, rfl⟩ := List.mem_map.mp hd
      exact hexValue_lt (List.all_eq_true.mp hdigits c hc)
    refine (ofDigits_lt hlt).trans_le ?_
    rw [List.length_map]
    exact Nat.pow_le_pow_right (by decide) hlen
  · cases h

theorem placeZeros_length {above below high low : List (List Char)} {zeros : ℕ}
    (h : placeZeros above below = some (high, zeros, low)) :
    high.length + zeros + low.length = 8 := by
  unfold placeZeros at h
  dsimp only at h
  generalize (if above.head? = some [] then above.tail else above) = high' at h
  generalize (if below.getLast? = some [] then below.dropLast else below) = low' at h
  split at h
  · cases h
  · split at h
    · cases h
      omega
    · cases h

/-- Eight hextets are read. -/
theorem skipZeros_length {parts high low : List (List Char)} {zeros : ℕ}
    (h : skipZeros parts = some (high, zeros, low)) : high.length + zeros + low.length = 8 := by
  unfold skipZeros at h
  dsimp only at h
  split at h
  · split at h
    · rename_i hlen
      cases h
      simp [hlen.1]
    · cases h
  · exact placeZeros_length h
  · cases h

theorem hextetsValue_lt {parts : List (List Char)} {ip : ℕ} (h : hextetsValue parts = some ip) :
    ip < 2 ^ 128 := by
  simp only [hextetsValue, Option.bind_eq_bind, Option.bind_eq_some_iff, Option.some.injEq] at h
  obtain ⟨⟨high, zeros, low⟩, hskip, ds, hds, es, hes, rfl⟩ := h
  obtain ⟨hhigh, -, hhighs⟩ := forall_of_mapM hds
  obtain ⟨hlow, -, hlows⟩ := forall_of_mapM hes
  have hlen : (ds ++ List.replicate zeros 0 ++ es).length = 8 := by
    rw [List.length_append, List.length_append, List.length_replicate, ← hhigh, ← hlow]
    exact skipZeros_length hskip
  have hlt : ∀ d ∈ ds ++ List.replicate zeros 0 ++ es, d < 65536 := by
    intro d hd
    rcases List.mem_append.mp hd with hd | hd
    · rcases List.mem_append.mp hd with hd | hd
      · obtain ⟨part, -, hpart⟩ := hhighs d hd
        exact parseHextet_lt hpart
      · rw [List.eq_of_mem_replicate hd]
        decide
    · obtain ⟨part, -, hpart⟩ := hlows d hd
      exact parseHextet_lt hpart
  have hbound := ofDigits_lt hlt
  rwa [hlen] at hbound

theorem parseIpv6_lt {cs : List Char} {ip : ℕ} (h : parseIpv6 cs = some ip) : ip < 2 ^ 128 := by
  unfold parseIpv6 at h
  dsimp only at h
  split at h
  · cases h
  · obtain ⟨parts, -, hparts⟩ := Option.bind_eq_some_iff.mp h
    split at hparts
    · cases hparts
    · exact hextetsValue_lt hparts

theorem colon_mem_of_parseIpv6 {cs : List Char} {ip : ℕ} (h : parseIpv6 cs = some ip) : ':' ∈ cs := by
  by_contra hcolon
  have hsplit : cs.splitOn ':' = [cs] := List.splitOn_eq_singleton hcolon
  unfold parseIpv6 at h
  rw [hsplit] at h
  simp at h

theorem dot_mem_of_parseIpv4 {cs : List Char} {ip : ℕ} (h : parseIpv4 cs = some ip) : '.' ∈ cs := by
  by_contra hdot
  have hsplit : cs.splitOn '.' = [cs] := List.splitOn_eq_singleton hdot
  unfold parseIpv4 at h
  rw [hsplit] at h
  cases h

/-- An IPv4-mapped address is read as a number of the last 48 bits. -/
theorem parseIpv6_mapped {cs : List Char} {ip : ℕ} (h : parseIpv4 cs = some ip) :
    parseIpv6 ("::ffff:".toList ++ cs) = some (0xffff * 2 ^ 32 + ip) := by
  have hip := (parseIpv4_eq_some h).1
  have hcolon : ':' ∉ cs := notMem_of_parseIpv4 h (by decide) (by decide)
  have hjoin : "::ffff:".toList ++ cs = [':'].intercalate [[], [], "ffff".toList, cs] := by
    simp [List.intercalate]
  have hsplit : ("::ffff:".toList ++ cs).splitOn ':' = [[], [], "ffff".toList, cs] := by
    rw [hjoin]
    refine List.splitOn_intercalate ':' ?_ (List.cons_ne_nil _ _)
    simp [hcolon]
  let high := Nat.toDigits 16 (ip / 2 ^ 16 % 2 ^ 16)
  let low := Nat.toDigits 16 (ip % 2 ^ 16)
  have hembed : embedIpv4 [[], [], "ffff".toList, cs] =
      some ([] :: ([] ++ [] :: ["ffff".toList, high, low])) := by
    unfold embedIpv4
    simp [dot_mem_of_parseIpv4 h, h, high, low]
  have hskip : skipZeros ([] :: ([] ++ [] :: ["ffff".toList, high, low])) =
      some ([], 5, ["ffff".toList, high, low]) := by
    rw [skipZeros_of_empty [] (by simp) List.not_mem_nil (by simp [high, Nat.toDigits_ne_nil])]
    simp [placeZeros, low, Nat.toDigits_ne_nil]
  have hvalue : hextetsValue ([] :: ([] ++ [] :: ["ffff".toList, high, low])) =
      some (0xffff * 2 ^ 32 + ip) := by
    have hffff : parseHextet "ffff".toList = some 0xffff := by decide
    have hhigh : parseHextet high = some (ip / 2 ^ 16 % 2 ^ 16) :=
      parseHextet_toDigits (Nat.mod_lt _ (by decide))
    have hlow : parseHextet low = some (ip % 2 ^ 16) :=
      parseHextet_toDigits (Nat.mod_lt _ (by decide))
    have hparts : ["ffff".toList, high, low].mapM parseHextet =
        some [0xffff, ip / 2 ^ 16 % 2 ^ 16, ip % 2 ^ 16] := by
      simp only [List.mapM_cons, List.mapM_nil, hffff, hhigh, hlow]
      rfl
    have hsum : ofDigits 65536 ([] ++ List.replicate 5 0 ++
        [0xffff, ip / 2 ^ 16 % 2 ^ 16, ip % 2 ^ 16]) = 0xffff * 2 ^ 32 + ip := by
      simp [ofDigits, List.replicate]
      omega
    unfold hextetsValue
    rw [hskip]
    simp only [Option.bind_eq_bind, Option.bind_some, List.mapM_nil, Option.pure_def, hparts, hsum]
  unfold parseIpv6
  dsimp only
  rw [hsplit, if_neg (by simp), hembed, Option.bind_some, if_neg (by simp), hvalue]

end IpAddress
