import Mathlib.Data.List.Induction
import Perpetua.Mesh.Dotenv

/-!
# What harmonizing keeps

The loop writes for every line what `rendered` says. From then on a managed key has at most one
declaration, which is what the second run finds.
-/

namespace Perpetua.Mesh

/-! ## Lines that declare a key -/

/-- A key that a line can declare. -/
def IsKey (key : Text) : Prop := key.head?.any isKeyStart = true ∧ ∀ c ∈ key, isKeyChar c = true

theorem keyLine_eq_some {line key raw : Text} :
    keyLine line = some (key, raw) ↔ IsKey key ∧ line = declaration key raw := by
  simp only [keyLine, Option.ite_none_right_eq_some, Option.some.injEq, Prod.mk.injEq]
  constructor
  · rintro ⟨⟨hstart, heq⟩, rfl, rfl⟩
    refine ⟨⟨hstart, fun c hc => List.mem_takeWhile_imp hc⟩, ?_⟩
    obtain ⟨rest, hrest⟩ := List.head?_eq_some_iff.mp heq
    rw [declaration, hrest, List.tail_cons, ← hrest, List.takeWhile_append_dropWhile]
  · rintro ⟨⟨hstart, hchars⟩, rfl⟩
    have htake : (declaration key raw).takeWhile isKeyChar = key := by
      rw [declaration, List.takeWhile_append_of_pos hchars, List.takeWhile_cons_of_neg (by decide),
        List.append_nil]
    have hdrop : (declaration key raw).dropWhile isKeyChar = '=' :: raw := by
      rw [declaration, List.dropWhile_append_of_pos hchars, List.dropWhile_cons_of_neg (by decide)]
    rw [htake, hdrop]
    exact ⟨⟨hstart, rfl⟩, rfl, rfl⟩

theorem IsKey.keyLine {key : Text} (h : IsKey key) (value : Text) :
    keyLine (declaration key value) = some (key, value) := keyLine_eq_some.mpr ⟨h, rfl⟩

/-- A comment declares no key. -/
theorem keyLine_comment (cs : Text) : keyLine ('#' :: cs) = none := by
  rw [keyLine, if_neg]
  rw [List.takeWhile_cons_of_neg (by decide)]
  exact fun h => absurd h.1 (by decide)

theorem keyLine_nil : keyLine [] = none := by decide

theorem isSpace_of_isKeyChar {c : Char} (h : isKeyChar c = true) : PyText.isSpace c = false := by
  rw [isKeyChar, Bool.or_eq_true, beq_iff_eq] at h
  rcases h with h | rfl
  · exact PyText.isSpace_of_isAlphanum h
  · decide

theorem isLineBoundary_of_isKeyChar {c : Char} (h : isKeyChar c = true) :
    PyText.isLineBoundary c = false := by
  have hspace := isSpace_of_isKeyChar h
  simp [PyText.isSpace, PyText.isLineBoundary] at hspace ⊢
  omega

/-! ## Stripped texts -/

theorem strip_sublist (cs : Text) : (strip cs).Sublist cs := by
  rw [strip, PyText.strip, String.toList_ofList, String.toList_ofList]
  have hright := (List.dropWhile_sublist PyText.isSpace
    (l := (cs.dropWhile PyText.isSpace).reverse)).reverse
  rw [List.reverse_reverse] at hright
  exact hright.trans (List.dropWhile_sublist _)

/-- A text that begins with no space begins as before. -/
theorem head?_strip_cons {c : Char} (h : PyText.isSpace c = false) (cs : Text) :
    (strip (c :: cs)).head? = some c := by
  rw [strip, PyText.strip, String.toList_ofList, String.toList_ofList,
    List.dropWhile_cons_of_neg (by simp [h]), List.head?_reverse, List.reverse_cons]
  have hlast : ∀ ds : Text, ((ds ++ [c]).dropWhile PyText.isSpace).getLast? = some c := by
    intro ds
    induction ds with
    | nil => rw [List.nil_append, List.dropWhile_cons_of_neg (by simp [h])]; rfl
    | cons d ds ih =>
        rw [List.cons_append, List.dropWhile_cons]
        split
        · exact ih
        · rw [← List.cons_append, List.getLast?_concat]
  exact hlast cs.reverse

theorem isEmptyValue_iff {raw : Text} : isEmptyValue raw = true ↔ unquoteDotenvValue raw = [] := by
  simp only [isEmptyValue, unquoteDotenvValue]
  split
  next h => simp [h, quoted]
  next h =>
    split
    · simp
    · simp [h]

/-! ## The loop -/

def declares (key line : Text) : Bool := (keyLine line).any (·.1 = key)

/-- What the last declaration of a managed key becomes. -/
def Call.effective (c : Call) (key raw line : Text) : List Text :=
  match Entries.get? c.pending key with
  | none => [line]
  | some value =>
      if key ∈ c.replaceKeys then
        (if isEmptyValue raw then [] else [supersededComment c.timestamp.1 line]) ++
          [declaration key value]
      else if isEmptyValue raw then [declaration key value]
      else [line]

/-- What a line becomes that other lines follow. -/
def Call.render (c : Call) (line : Text) (rest : List Text) : List Text :=
  match keyLine line with
  | none => [line]
  | some (key, raw) =>
      if key ∉ c.keys then [line]
      else if rest.any (declares key) then [duplicateComment line]
      else c.effective key raw line

def Call.rendered (c : Call) : List Text → List Text
  | [] => []
  | line :: rest => c.render line rest ++ c.rendered rest

/-- A declaration is the last one of its key when no declaration follows it. -/
theorem managedLineIndices_getLast? {before rest : List Text} {line key : Text}
    (h : declares key line = true) :
    (managedLineIndices (before ++ line :: rest) key).getLast? = some before.length ↔
      rest.any (declares key) = false := by
  have hindices : managedLineIndices (before ++ line :: rest) key =
      managedLineIndices before key ++ before.length ::
        ((rest.zipIdx (before.length + 1)).filter fun li => declares key li.1).map Prod.snd := by
    simp only [managedLineIndices, List.zipIdx_append, List.zipIdx_cons, List.filter_append,
      List.map_append, Nat.zero_add]
    rw [List.filter_cons_of_pos (by exact h), List.map_cons]
    rfl
  have hany : rest.any (declares key) =
      (rest.zipIdx (before.length + 1)).any fun li => declares key li.1 := by
    rw [← Function.comp_def, ← List.any_map, List.zipIdx_map_fst]
  rw [hindices, hany, List.getLast?_append, List.getLast?_cons]
  cases hrest : (rest.zipIdx (before.length + 1)).filter fun li => declares key li.1 with
  | nil =>
      rw [List.filter_eq_nil_iff] at hrest
      simpa using hrest
  | cons li others =>
      have hlater : ∀ e ∈ li :: others, before.length < e.2 ∧
          e ∈ rest.zipIdx (before.length + 1) ∧ declares key e.1 = true := by
        intro e he
        rw [← hrest, List.mem_filter] at he
        exact ⟨List.le_snd_of_mem_zipIdx he.1, he⟩
      obtain ⟨last, hlast⟩ : ∃ last, (li :: others).getLast? = some last := ⟨_, List.getLast?_cons⟩
      have hmem := hlater last (List.mem_of_getLast? hlast)
      rw [List.getLast?_map, hlast, Option.map_some, Option.getD_some, Option.some_or,
        Option.some.injEq, List.any_eq_false]
      constructor
      · intro heq
        omega
      · intro hnone
        exact absurd hmem.2.2 (hnone last hmem.2.1)

/-- What a round does with a line, by what the line declares. -/
theorem mergeLine_eq (c : Call) (before rest : List Text) (line : Text) (m : Merge) :
    c.mergeLine (before ++ line :: rest) m (line, before.length) =
      match keyLine line with
      | none => m.keep line
      | some (key, raw) =>
          if key ∉ c.keys then m.keep line
          else if rest.any (declares key) then m.keep (duplicateComment line)
          else
            match Entries.get? m.pending key with
            | none => m.keep line
            | some value =>
                if key ∈ c.replaceKeys then
                  (if isEmptyValue raw then m
                    else m.keep (supersededComment c.timestamp.1 line)).fill key value
                else if isEmptyValue raw then m.fill key value
                else (m.keep line).pop key := by
  unfold Call.mergeLine
  cases hline : keyLine line with
  | none =>
      simp only [hline]
      exact ite_self _
  | some kr =>
      obtain ⟨key, raw⟩ := kr
      obtain ⟨hkey, hdecl⟩ := keyLine_eq_some.mp hline
      obtain ⟨first, others, rfl⟩ : ∃ first others, key = first :: others := by
        cases key with
        | nil => exact absurd hkey.1 (by decide)
        | cons first others => exact ⟨first, others, rfl⟩
      have hfirst := hkey.2 first List.mem_cons_self
      have hhead : (strip line).head? = some first := by
        rw [hdecl]
        exact head?_strip_cons (isSpace_of_isKeyChar hfirst) _
      have hhash : first ≠ '#' := by
        rintro rfl
        exact absurd hfirst (by decide)
      have hmark : ¬ duplicateMark <+: strip line := by
        rintro ⟨tail, htail⟩
        rw [← htail] at hhead
        exact hhash (Option.some.inj hhead).symm
      have hlive : ¬ (strip line = [] ∨ (strip line).head? = some '#' ∨ '=' ∉ line) := by
        rw [hhead, hdecl]
        rintro (hnil | hcomment | heq)
        · rw [← hdecl] at hnil
          rw [hnil] at hhead
          cases hhead
        · exact hhash (Option.some.inj hcomment)
        · exact heq (List.mem_append_right _ List.mem_cons_self)
      have hdeclares : declares (first :: others) line = true := by simp [declares, hline]
      simp only [hline]
      rw [if_neg hlive]
      refine if_congr Iff.rfl rfl ?_
      rw [if_neg hmark]
      refine if_congr ?_ rfl rfl
      rw [ne_eq, managedLineIndices_getLast? hdeclares, Bool.not_eq_false]

theorem declares_eq {line key raw : Text} (h : keyLine line = some (key, raw)) (k : Text) :
    declares k line = decide (key = k) := by
  simp [declares, h]

theorem declares_of_none {line : Text} (h : keyLine line = none) (k : Text) :
    declares k line = false := by
  simp [declares, h]

/-- The last declaration of a key. -/
def lastOf (c : Call) (line : Text) (rest : List Text) (key : Text) : Bool :=
  key ∈ c.keys && declares key line && !rest.any (declares key)

/-- One round: the line is rendered, and its key is no longer pending behind its last declaration. -/
theorem mergeLine_step (c : Call) (before rest : List Text) (line : Text) {m : Merge}
    (h : ∀ key ∈ c.keys, declares key line = true →
      Entries.get? m.pending key = Entries.get? c.pending key) :
    (c.mergeLine (before ++ line :: rest) m (line, before.length)).out =
        m.out ++ c.render line rest ∧
      (c.mergeLine (before ++ line :: rest) m (line, before.length)).pending =
        m.pending.filter fun kv => !lastOf c line rest kv.1 := by
  have hsame : (∀ key, lastOf c line rest key = false) →
      m.pending = m.pending.filter fun kv => !lastOf c line rest kv.1 := by
    intro hnone
    rw [List.filter_eq_self.mpr]
    simp [hnone]
  rw [mergeLine_eq, Call.render]
  cases hline : keyLine line with
  | none => exact ⟨rfl, hsame fun k => by simp [lastOf, declares_of_none hline]⟩
  | some kr =>
      obtain ⟨key, raw⟩ := kr
      dsimp only
      by_cases hkey : key ∈ c.keys
      · rw [if_neg (not_not.mpr hkey), if_neg (not_not.mpr hkey)]
        by_cases hrest : rest.any (declares key) = true
        · rw [if_pos hrest, if_pos hrest]
          refine ⟨rfl, hsame fun k => ?_⟩
          by_cases hk : key = k
          · simp [lastOf, ← hk, hrest]
          · simp [lastOf, declares_eq hline, hk]
        · rw [if_neg hrest, if_neg hrest, Call.effective,
            ← h key hkey (by simp [declares_eq hline])]
          have hlast : (fun kv : Text × Text => !lastOf c line rest kv.1) =
              fun kv => decide (kv.1 ≠ key) := by
            funext kv
            by_cases hk : kv.1 = key
            · simp [lastOf, declares_eq hline, hk, hkey, hrest]
            · simp [lastOf, declares_eq hline, hk, Ne.symm hk]
          rw [hlast]
          cases hget : Entries.get? m.pending key with
          | none =>
              refine ⟨rfl, (List.filter_eq_self.mpr ?_).symm⟩
              intro kv hkv
              have hne : kv.1 ≠ key := fun hk =>
                Entries.get?_eq_none.mp hget (List.mem_map.mpr ⟨kv, hkv, hk⟩)
              simpa using hne
          | some value =>
              dsimp only
              by_cases hrotate : key ∈ c.replaceKeys <;> by_cases hempty : isEmptyValue raw = true
              · simp [hrotate, hempty, Merge.fill, Merge.keep, Merge.pop, Entries.erase]
              · simp [hrotate, hempty, Merge.fill, Merge.keep, Merge.pop, Entries.erase]
              · simp [hrotate, hempty, Merge.fill, Merge.keep, Merge.pop, Entries.erase]
              · simp [hrotate, hempty, Merge.keep, Merge.pop, Entries.erase]
      · rw [if_pos hkey, if_pos hkey]
        refine ⟨rfl, hsame fun k => ?_⟩
        by_cases hk : key = k
        · simp [lastOf, ← hk, hkey]
        · simp [lastOf, declares_eq hline, hk]

/-- The keys that the loop leaves pending. -/
def undeclared (c : Call) (lines : List Text) (key : Text) : Bool :=
  !(key ∈ c.keys && lines.any (declares key))

/-- The run of the loop over the lines that are left. -/
theorem foldl_mergeLine (c : Call) (before rest : List Text) {m : Merge}
    (h : ∀ key ∈ c.keys, rest.any (declares key) = true →
      Entries.get? m.pending key = Entries.get? c.pending key) :
    ((rest.zipIdx before.length).foldl (c.mergeLine (before ++ rest)) m).out =
        m.out ++ c.rendered rest ∧
      ((rest.zipIdx before.length).foldl (c.mergeLine (before ++ rest)) m).pending =
        m.pending.filter fun kv => undeclared c rest kv.1 := by
  induction rest generalizing before m with
  | nil => simp [Call.rendered, undeclared]
  | cons line rest ih =>
      obtain ⟨hout, hpending⟩ := mergeLine_step c before rest line (m := m) fun key hkey hline =>
        h key hkey (by simp [hline])
      have hnext := ih (before ++ [line]) (m := c.mergeLine (before ++ line :: rest) m
        (line, before.length)) ?_
      · rw [List.append_assoc, List.singleton_append, List.length_append, List.length_singleton]
          at hnext
        rw [List.zipIdx_cons, List.foldl_cons, Call.rendered, hnext.1, hnext.2, hout, hpending,
          List.append_assoc, List.filter_filter]
        refine ⟨rfl, List.filter_congr fun kv _ => ?_⟩
        simp only [undeclared, lastOf, List.any_cons]
        cases decide (kv.1 ∈ c.keys) <;> cases declares kv.1 line <;>
          cases rest.any (declares kv.1) <;> rfl
      · intro key hkey hrest
        have hfilter := Entries.get?_filter m.pending (fun k => !lastOf c line rest k) key
        rw [hpending, hfilter, if_pos (by simp [lastOf, hrest])]
        exact h key hkey (by rw [List.any_cons, hrest, Bool.or_true])

/-! ## What is read -/

/-- The value that a line declares for a key. -/
def declaredBy (key line : Text) : Option Text :=
  (keyLine line).bind fun kr => if kr.1 = key then some kr.2 else none

/-- The values of the declarations of a key. -/
def declared (key : Text) (lines : List Text) : List Text := lines.filterMap (declaredBy key)

/-- The last value that is not empty. -/
def lastValue (raws : List Text) : Text :=
  raws.foldl (fun last raw =>
    if unquoteDotenvValue raw = [] then last else unquoteDotenvValue raw) []

theorem readDotenvKey_eq (content key : Text) :
    readDotenvKey (some content) key = lastValue (declared key (fileLines content)) := by
  rw [lastValue, declared, List.foldl_filterMap]
  refine congrArg (fun f => (fileLines content).foldl f []) ?_
  funext last line
  rw [readLine, declaredBy]
  cases keyLine line with
  | none => rfl
  | some kr =>
      by_cases hk : kr.1 = key <;> simp [hk]

theorem lastValue_append_of_ne (raws : List Text) {raw : Text} (h : unquoteDotenvValue raw ≠ []) :
    lastValue (raws ++ [raw]) = unquoteDotenvValue raw := by
  rw [lastValue, List.foldl_append]
  simp [h]

theorem lastValue_singleton (raw : Text) : lastValue [raw] = unquoteDotenvValue raw := by
  by_cases h : unquoteDotenvValue raw = [] <;> simp [lastValue, h]

/-- Nothing is read exactly when every declaration is empty. -/
theorem lastValue_eq_nil {raws : List Text} :
    lastValue raws = [] ↔ ∀ raw ∈ raws, unquoteDotenvValue raw = [] := by
  induction raws using List.reverseRecOn with
  | nil => simp [lastValue]
  | append_singleton raws raw ih =>
      by_cases h : unquoteDotenvValue raw = []
      · have hsame : lastValue (raws ++ [raw]) = lastValue raws := by
          simp [lastValue, List.foldl_append, h]
        rw [hsame, ih, List.forall_mem_append, List.forall_mem_singleton]
        exact (and_iff_left h).symm
      · rw [lastValue_append_of_ne raws h]
        exact iff_of_false h fun hall => h (hall raw (by simp))

theorem declaredBy_of_none {line : Text} (h : keyLine line = none) (key : Text) :
    declaredBy key line = none := by
  rw [declaredBy, h, Option.bind_none]

theorem declaredBy_eq {line k raw : Text} (h : keyLine line = some (k, raw)) (key : Text) :
    declaredBy key line = if k = key then some raw else none := by
  rw [declaredBy, h, Option.bind_some]

theorem declared_cons (key line : Text) (lines : List Text) :
    declared key (line :: lines) = (declaredBy key line).toList ++ declared key lines := by
  rw [declared, List.filterMap_cons]
  cases declaredBy key line <;> rfl

theorem declared_append (key : Text) (l₁ l₂ : List Text) :
    declared key (l₁ ++ l₂) = declared key l₁ ++ declared key l₂ := List.filterMap_append

theorem declares_eq_isSome (key line : Text) : declares key line = (declaredBy key line).isSome := by
  cases hline : keyLine line with
  | none => rw [declares_of_none hline, declaredBy_of_none hline, Option.isSome_none]
  | some kr => by_cases hk : kr.1 = key <;> simp [declares_eq hline, declaredBy_eq hline, hk]

theorem any_declares {key : Text} {lines : List Text} :
    lines.any (declares key) = true ↔ declared key lines ≠ [] := by
  induction lines with
  | nil => simp [declared]
  | cons line lines ih =>
      rw [List.any_cons, Bool.or_eq_true, ih, declared_cons, declares_eq_isSome]
      cases declaredBy key line <;> simp

theorem declared_eq_nil_of_comments {key : Text} {lines : List Text}
    (h : ∀ line ∈ lines, keyLine line = none) : declared key lines = [] :=
  List.filterMap_eq_nil_iff.mpr fun line hline => declaredBy_of_none (h line hline) key

/-! ## What the loop writes -/

/-- The value of the one declaration that is left of a managed key. -/
def Call.settle (c : Call) (key raw : Text) : Text :=
  match Entries.get? c.pending key with
  | none => raw
  | some value => if key ∈ c.replaceKeys ∨ isEmptyValue raw = true then value else raw

theorem keyLine_duplicateComment (line : Text) : keyLine (duplicateComment line) = none :=
  keyLine_comment _

theorem keyLine_supersededComment (timestamp line : Text) :
    keyLine (supersededComment timestamp line) = none := keyLine_comment _

theorem declared_declaration {k : Text} (h : IsKey k) (value key : Text) :
    declared key [declaration k value] = if k = key then [value] else [] := by
  rw [declared_cons, declaredBy_eq (h.keyLine value)]
  by_cases hk : k = key <;> simp [hk, declared]

theorem declared_effective (c : Call) {line k raw : Text} (h : keyLine line = some (k, raw))
    (key : Text) :
    declared key (c.effective k raw line) = if k = key then [c.settle k raw] else [] := by
  obtain ⟨hk, rfl⟩ := keyLine_eq_some.mp h
  rw [Call.effective, Call.settle]
  cases Entries.get? c.pending k with
  | none => exact declared_declaration hk raw key
  | some value =>
      dsimp only
      by_cases hrotate : k ∈ c.replaceKeys
      · have hnote : declared key (if isEmptyValue raw then []
            else [supersededComment c.timestamp.1 (declaration k raw)]) = [] := by
          apply declared_eq_nil_of_comments
          intro line hline
          split at hline
          · cases hline
          · rw [List.mem_singleton.mp hline, keyLine_supersededComment]
        rw [if_pos hrotate, if_pos (Or.inl hrotate), declared_append, hnote, List.nil_append]
        exact declared_declaration hk value key
      · rw [if_neg hrotate]
        by_cases hempty : isEmptyValue raw = true
        · rw [if_pos hempty, if_pos (Or.inr hempty)]
          exact declared_declaration hk value key
        · rw [if_neg hempty, if_neg (not_or.mpr ⟨hrotate, hempty⟩)]
          exact declared_declaration hk raw key

/-- An unmanaged key keeps its declarations. -/
theorem declared_rendered_of_notMem {c : Call} {key : Text} (h : key ∉ c.keys) (lines : List Text) :
    declared key (c.rendered lines) = declared key lines := by
  induction lines with
  | nil => rfl
  | cons line lines ih =>
      rw [Call.rendered, declared_append, ih, ← List.singleton_append (x := line), declared_append]
      refine congrArg (· ++ declared key lines) ?_
      rw [Call.render]
      cases hline : keyLine line with
      | none => rfl
      | some kr =>
          obtain ⟨k, raw⟩ := kr
          by_cases hk : k ∈ c.keys
          · have hne : k ≠ key := fun heq => h (heq ▸ hk)
            have hnone : declared key [line] = [] := by
              rw [declared_cons, declaredBy_eq hline, if_neg hne]
              rfl
            dsimp only
            rw [if_neg (not_not.mpr hk), hnone]
            split
            · exact declared_eq_nil_of_comments fun l hl => by
                rw [List.mem_singleton.mp hl, keyLine_duplicateComment]
            · rw [declared_effective c hline, if_neg hne]
          · dsimp only
            rw [if_pos hk]

/-- Of the declarations of a managed key the last one is left, with what it becomes. -/
theorem declared_rendered {c : Call} {key : Text} (h : key ∈ c.keys) (lines : List Text) :
    declared key (c.rendered lines) =
      ((declared key lines).getLast?.map (c.settle key)).toList := by
  induction lines with
  | nil => rfl
  | cons line lines ih =>
      rw [Call.rendered, declared_append, ih, declared_cons, Call.render]
      cases hline : keyLine line with
      | none =>
          rw [declaredBy_of_none hline]
          dsimp only
          rw [declared_eq_nil_of_comments (by simpa using hline)]
          rfl
      | some kr =>
          obtain ⟨k, raw⟩ := kr
          rw [declaredBy_eq hline]
          dsimp only
          by_cases hk : k = key
          · subst hk
            rw [if_neg (not_not.mpr h), if_pos rfl]
            by_cases hrest : lines.any (declares k) = true
            · rw [if_pos hrest, declared_eq_nil_of_comments (by simp [keyLine_duplicateComment])]
              cases hlines : declared k lines with
              | nil => exact absurd hlines (any_declares.mp hrest)
              | cons first others => simp [List.getLast?_cons]
            · have hnone : declared k lines = [] := not_not.mp fun hne => hrest (any_declares.mpr hne)
              rw [if_neg hrest, declared_effective c hline, if_pos rfl, hnone]
              rfl
          · rw [if_neg hk]
            have hnone : declared key (if k ∉ c.keys then [line]
                else if lines.any (declares k) = true then [duplicateComment line]
                else c.effective k raw line) = [] := by
              split
              · rw [declared_cons, declaredBy_eq hline, if_neg hk]
                rfl
              · split
                · exact declared_eq_nil_of_comments (by simp [keyLine_duplicateComment])
                · rw [declared_effective c hline, if_neg hk]
            rw [hnone]
            rfl

/-! ## What is written behind the lines -/

theorem nodup_pending (c : Call) (keep : Text × Text → Bool) :
    ((c.pending.filter keep).map Prod.fst).Nodup :=
  ((List.filter_sublist.trans List.filter_sublist).map _).nodup c.values.nodup

theorem pending_mem_keys {c : Call} {key : Text} (h : key ∉ c.keys) :
    Entries.get? c.pending key = none := by
  rw [Entries.get?_eq_none]
  intro hmem
  obtain ⟨kv, hkv, rfl⟩ := List.mem_map.mp hmem
  have hcond := (List.mem_filter.mp hkv).2
  rw [decide_eq_true_eq] at hcond
  exact h hcond.1

/-- The order of entries does not matter to a lookup. -/
theorem get?_eq_of_perm {l l' : List (Text × Text)} (hn : (l.map Prod.fst).Nodup) (hp : l'.Perm l)
    (key : Text) : Entries.get? l' key = Entries.get? l key := by
  cases hget : Entries.get? l key with
  | none =>
      rw [Entries.get?_eq_none] at hget ⊢
      exact fun hmem => hget ((hp.map _).mem_iff.mp hmem)
  | some v =>
      exact Entries.get?_of_mem ((hp.map _).nodup_iff.mpr hn) (hp.mem_iff.mpr (Entries.mem_of_get? hget))

theorem declared_declarations {entries : List (Text × Text)} (hkeys : ∀ kv ∈ entries, IsKey kv.1)
    (hn : (entries.map Prod.fst).Nodup) (key : Text) :
    declared key (entries.map fun kv => declaration kv.1 kv.2) =
      (Entries.get? entries key).toList := by
  induction entries with
  | nil => rfl
  | cons kv entries ih =>
      rw [List.forall_mem_cons] at hkeys
      rw [List.map_cons, List.nodup_cons] at hn
      rw [List.map_cons, ← List.singleton_append, declared_append, declared_declaration hkeys.1,
        ih hkeys.2 hn.2, Entries.get?_cons]
      by_cases hk : kv.1 = key
      · rw [if_pos hk, if_pos hk, Entries.get?_eq_none.mpr (hk ▸ hn.1)]
        rfl
      · rw [if_neg hk, if_neg hk, List.nil_append]

theorem declared_sorted (pending : List (Text × Text)) (hkeys : ∀ kv ∈ pending, IsKey kv.1)
    (hn : (pending.map Prod.fst).Nodup) (key : Text) :
    declared key ((sortedByKey pending).map fun kv => declaration kv.1 kv.2) =
      (Entries.get? pending key).toList := by
  have hperm : (sortedByKey pending).Perm pending := List.perm_insertionSort _ _
  rw [declared_declarations (fun kv hkv => hkeys kv (hperm.mem_iff.mp hkv))
    ((hperm.map _).nodup_iff.mpr hn), get?_eq_of_perm hn hperm]

/-- A line that declares no key and is a line. -/
def Plain (line : Text) : Prop := keyLine line = none ∧ OneLine line

theorem plain_nil : Plain [] := ⟨keyLine_nil, by simp [OneLine]⟩

theorem plain_header (c : Call) {line : Text} (h : line ∈ PyText.splitlines c.header.text) :
    Plain line := ⟨c.header.comment line h, PyText.isLineBoundary_of_mem_splitlines h⟩

/-- The pending keys are written behind plain lines; without a pending key nothing is. -/
theorem append_eq (c : Call) (m : Merge) : ∃ notes, (∀ line ∈ notes, Plain line) ∧
    (m.pending = [] → notes = []) ∧
    (c.append m).1 = m.out ++ notes ++ (sortedByKey m.pending).map fun kv => declaration kv.1 kv.2 := by
  rw [Call.append]
  by_cases hp : m.pending = []
  · rw [if_pos hp, hp]
    exact ⟨[], by simp, fun _ => rfl, by simp [sortedByKey]⟩
  · rw [if_neg hp]
    dsimp only
    have hheader : ∀ out, ∀ line ∈ c.headerFor out, Plain line := by
      intro out line hline
      rw [Call.headerFor] at hline
      cases hlines : PyText.splitlines c.header.text with
      | nil =>
          rw [hlines] at hline
          cases hline
      | cons first rest =>
          rw [hlines] at hline
          dsimp only at hline
          split at hline
          · cases hline
          · exact plain_header c (hlines ▸ hline)
    split
    · refine ⟨[] :: c.headerFor (m.out ++ [[]]), ?_, fun h => absurd h hp, by simp⟩
      exact List.forall_mem_cons.mpr ⟨plain_nil, hheader _⟩
    · exact ⟨c.headerFor m.out, hheader _, fun h => absurd h hp, rfl⟩

theorem newFile_eq (c : Call) : ∃ notes, (∀ line ∈ notes, Plain line) ∧
    c.newFile.1 = notes ++ (sortedByKey c.pending).map fun kv => declaration kv.1 kv.2 := by
  refine ⟨_, ?_, rfl⟩
  intro line hline
  split at hline
  · rcases List.mem_append.mp hline with hline | hline
    · exact plain_header c hline
    · rw [List.mem_singleton.mp hline]
      exact plain_nil
  · exact plain_header c hline

/-! ## The lines of the result -/

def inLines : Option Text → List Text
  | none => []
  | some content => fileLines content

/-- The lines that are written, or would be if the text were not the same. -/
def Call.outLines (c : Call) : Option Text → List Text
  | none => c.newFile.1
  | some content => (c.merged (fileLines content)).1

/-- The keys that no line declares. -/
def Call.missing (c : Call) (lines : List Text) : List (Text × Text) :=
  c.pending.filter fun kv => undeclared c lines kv.1

theorem outLines_eq (c : Call) (file : Option Text) : ∃ notes, (∀ line ∈ notes, Plain line) ∧
    (file.isSome → c.missing (inLines file) = [] → notes = []) ∧
    c.outLines file = c.rendered (inLines file) ++ notes ++
      (sortedByKey (c.missing (inLines file))).map fun kv => declaration kv.1 kv.2 := by
  cases file with
  | none =>
      obtain ⟨notes, hplain, heq⟩ := newFile_eq c
      refine ⟨notes, hplain, fun h => absurd h (by simp), ?_⟩
      have hmissing : c.missing [] = c.pending := by
        rw [Call.missing, List.filter_eq_self]
        simp [undeclared]
      rw [Call.outLines, heq, inLines, hmissing]
      rfl
  | some content =>
      have hloop := foldl_mergeLine c [] (fileLines content) (m := { pending := c.pending })
        fun _ _ _ => rfl
      rw [List.nil_append, List.length_nil] at hloop
      obtain ⟨notes, hplain, hnil, heq⟩ := append_eq c
        ((fileLines content).zipIdx.foldl (c.mergeLine (fileLines content)) { pending := c.pending })
      rw [hloop.1, hloop.2] at heq
      rw [hloop.2] at hnil
      exact ⟨notes, hplain, fun _ => hnil, heq⟩

theorem declared_missing {c : Call} (hkeys : ∀ kv ∈ c.pending, IsKey kv.1) (lines : List Text)
    (key : Text) :
    declared key ((sortedByKey (c.missing lines)).map fun kv => declaration kv.1 kv.2) =
      if undeclared c lines key then (Entries.get? c.pending key).toList else [] := by
  have hget : Entries.get? (c.missing lines) key =
      if undeclared c lines key then Entries.get? c.pending key else none :=
    Entries.get?_filter c.pending (undeclared c lines) key
  have hsorted := declared_sorted (c.missing lines)
    (fun kv hkv => hkeys kv (List.mem_filter.mp hkv).1) (nodup_pending c _) key
  rw [hsorted, hget]
  split <;> rfl

/-- An unmanaged key has the declarations that it had. -/
theorem declared_outLines_of_notMem {c : Call} (hkeys : ∀ kv ∈ c.pending, IsKey kv.1) {key : Text}
    (h : key ∉ c.keys) (file : Option Text) :
    declared key (c.outLines file) = declared key (inLines file) := by
  obtain ⟨notes, hplain, -, heq⟩ := outLines_eq c file
  rw [heq, declared_append, declared_append, declared_rendered_of_notMem h,
    declared_eq_nil_of_comments fun line hline => (hplain line hline).1, declared_missing hkeys,
    pending_mem_keys h]
  simp

/-- A managed key has one declaration, or none if it has no value. -/
theorem declared_outLines {c : Call} (hkeys : ∀ kv ∈ c.pending, IsKey kv.1) {key : Text}
    (h : key ∈ c.keys) (file : Option Text) :
    declared key (c.outLines file) =
      match (declared key (inLines file)).getLast? with
      | some raw => [c.settle key raw]
      | none => (Entries.get? c.pending key).toList := by
  obtain ⟨notes, hplain, -, heq⟩ := outLines_eq c file
  rw [heq, declared_append, declared_append, declared_rendered h,
    declared_eq_nil_of_comments fun line hline => (hplain line hline).1, declared_missing hkeys]
  cases hlast : (declared key (inLines file)).getLast? with
  | none =>
      have hany : ¬ (inLines file).any (declares key) = true := fun hany =>
        any_declares.mp hany (List.getLast?_eq_none_iff.mp hlast)
      have hundeclared : undeclared c (inLines file) key = true := by simp [undeclared, hany]
      rw [if_pos hundeclared]
      simp
  | some raw =>
      have hany : (inLines file).any (declares key) = true := by
        rw [any_declares]
        intro hnil
        rw [hnil] at hlast
        cases hlast
      have hundeclared : ¬ undeclared c (inLines file) key = true := by simp [undeclared, h, hany]
      rw [if_neg hundeclared]
      simp

/-! ## Lines of a text -/

theorem OneLine.append {cs ds : Text} (hc : OneLine cs) (hd : OneLine ds) : OneLine (cs ++ ds) :=
  List.forall_mem_append.mpr ⟨hc, hd⟩

theorem OneLine.strip {cs : Text} (h : OneLine cs) : OneLine (strip cs) :=
  fun c hc => h c ((strip_sublist cs).mem hc)

theorem oneLine_declaration {key value : Text} (hkey : IsKey key) (hvalue : OneLine value) :
    OneLine (declaration key value) :=
  OneLine.append (fun c hc => isLineBoundary_of_isKeyChar (hkey.2 c hc))
    (List.forall_mem_cons.mpr ⟨by decide, hvalue⟩)

theorem oneLine_of_all {cs : Text} (h : cs.all fun c => !PyText.isLineBoundary c) : OneLine cs := by
  intro c hc
  simpa using List.all_eq_true.mp h c hc

theorem oneLine_duplicateComment {line : Text} (h : OneLine line) : OneLine (duplicateComment line) :=
  (oneLine_of_all (by decide : (duplicateMark ++ "; effective declaration follows): ".toList).all _)
    ).append h.strip

theorem oneLine_supersededComment {timestamp line : Text} (htime : OneLine timestamp)
    (h : OneLine line) : OneLine (supersededComment timestamp line) :=
  (((oneLine_of_all (by decide : ("# superseded ".toList).all _)).append htime).append
    (oneLine_of_all (by decide : (": ".toList).all _))).append h.strip

/-- The value that is pending for a key is written: no line declares the key, or the last one that
does is empty or to be replaced. -/
def Call.Writes (c : Call) (lines : List Text) (key : Text) : Prop :=
  ∀ raw, (declared key lines).getLast? = some raw → key ∈ c.replaceKeys ∨ isEmptyValue raw = true

/-- What a call writes for the pending keys are declarations of one line. -/
structure Call.Writable (c : Call) (lines : List Text) : Prop where
  keys : ∀ kv ∈ c.pending, IsKey kv.1
  values : ∀ kv ∈ c.pending, c.Writes lines kv.1 → OneLine kv.2

/-- What a call writes over a last declaration is of one line. -/
def Call.Overwrites (c : Call) (lines : List Text) : Prop :=
  ∀ kv ∈ c.pending, ∀ raw, (declared kv.1 lines).getLast? = some raw →
    kv.1 ∈ c.replaceKeys ∨ isEmptyValue raw = true → OneLine (declaration kv.1 kv.2)

theorem Call.Writable.overwrites {c : Call} {lines : List Text} (h : c.Writable lines) :
    c.Overwrites lines := by
  intro kv hkv raw hlast hwrite
  refine oneLine_declaration (h.keys kv hkv) (h.values kv hkv fun raw' hlast' => ?_)
  rwa [← Option.some.inj (hlast.symm.trans hlast')]

theorem Call.Overwrites.tail {c : Call} {line : Text} {lines : List Text}
    (h : c.Overwrites (line :: lines)) : c.Overwrites lines := by
  intro kv hkv raw hlast
  refine h kv hkv raw ?_
  rw [declared_cons, List.getLast?_append, hlast, Option.some_or]

theorem Call.Overwrites.effective {c : Call} {lines : List Text} (h : c.Overwrites lines)
    {key raw line : Text} (hlast : (declared key lines).getLast? = some raw)
    (hline : OneLine line) : ∀ l ∈ c.effective key raw line, OneLine l := by
  intro l hl
  rw [Call.effective] at hl
  cases hget : Entries.get? c.pending key with
  | none =>
      rw [hget, List.mem_singleton] at hl
      exact hl ▸ hline
  | some value =>
      have hwritten := h _ (Entries.mem_of_get? hget) raw hlast
      have hnote := oneLine_supersededComment c.timestamp.2 hline
      rw [hget] at hl
      dsimp only at hl
      split at hl
      next hreplace =>
        rcases List.mem_append.mp hl with hl | hl
        · split at hl
          · cases hl
          · exact List.mem_singleton.mp hl ▸ hnote
        · exact List.mem_singleton.mp hl ▸ hwritten (.inl hreplace)
      · split at hl
        next hempty => exact List.mem_singleton.mp hl ▸ hwritten (.inr hempty)
        · exact List.mem_singleton.mp hl ▸ hline

theorem Call.Overwrites.rendered {c : Call} {lines : List Text} (h : c.Overwrites lines)
    (hlines : ∀ line ∈ lines, OneLine line) : ∀ l ∈ c.rendered lines, OneLine l := by
  induction lines with
  | nil => simp [Call.rendered]
  | cons line lines ih =>
      rw [List.forall_mem_cons] at hlines
      rw [Call.rendered, List.forall_mem_append]
      refine ⟨?_, ih h.tail hlines.2⟩
      rw [Call.render]
      cases hkl : keyLine line with
      | none => exact List.forall_mem_singleton.mpr hlines.1
      | some kr =>
          dsimp only
          split
          · exact List.forall_mem_singleton.mpr hlines.1
          · split
            · exact List.forall_mem_singleton.mpr (oneLine_duplicateComment hlines.1)
            next hany =>
              refine h.effective ?_ hlines.1
              have hnone : declared kr.1 lines = [] := by
                by_contra hne
                exact hany (any_declares.mpr hne)
              rw [declared_cons, declaredBy_eq hkl, if_pos rfl, hnone]
              rfl

theorem oneLine_inLines (file : Option Text) : ∀ line ∈ inLines file, OneLine line := by
  cases file with
  | none => simp [inLines]
  | some content => exact fun line hline => PyText.isLineBoundary_of_mem_splitlines hline

theorem Call.Writable.missing {c : Call} {lines : List Text} (h : c.Writable lines)
    {kv : Text × Text} (hkv : kv ∈ c.missing lines) : OneLine (declaration kv.1 kv.2) := by
  obtain ⟨hpending, hundeclared⟩ := List.mem_filter.mp hkv
  have hkey : kv.1 ∈ c.keys := (of_decide_eq_true (List.mem_filter.mp hpending).2).1
  have hnone : declared kv.1 lines = [] := by
    by_contra hne
    simp [undeclared, hkey, any_declares.mpr hne] at hundeclared
  refine oneLine_declaration (h.keys kv hpending) (h.values kv hpending fun raw hlast => ?_)
  rw [hnone] at hlast
  cases hlast

theorem Call.Writable.outLines {c : Call} {file : Option Text} (h : c.Writable (inLines file)) :
    ∀ line ∈ c.outLines file, OneLine line := by
  obtain ⟨notes, hplain, -, heq⟩ := outLines_eq c file
  rw [heq, List.forall_mem_append, List.forall_mem_append]
  refine ⟨⟨h.overwrites.rendered (oneLine_inLines file), fun line hline => (hplain line hline).2⟩, ?_⟩
  intro line hline
  obtain ⟨kv, hkv, rfl⟩ := List.mem_map.mp hline
  rw [sortedByKey, List.mem_insertionSort] at hkv
  exact h.missing hkv

theorem joinLines_eq (out : List Text) : joinLines out = out.flatMap (· ++ ['\n']) := by
  cases out with
  | nil => rfl
  | cons line out =>
      rw [joinLines, if_neg (List.cons_ne_nil _ _)]
      induction out generalizing line with
      | nil => simp [List.intercalate]
      | cons next out ih =>
          rw [List.flatMap_cons, ← ih next, List.intercalate_cons_of_ne_nil (List.cons_ne_nil _ _)]
          simp

theorem universalNewlines_joinLines {out : List Text} (h : ∀ line ∈ out, OneLine line) :
    PyText.universalNewlines (joinLines out) = joinLines out := by
  apply PyText.universalNewlines_eq_self
  rw [joinLines_eq, List.mem_flatMap]
  rintro ⟨line, hline, hmem⟩
  rcases List.mem_append.mp hmem with hmem | hmem
  · exact absurd (h line hline _ hmem) (by decide)
  · exact absurd hmem (by decide)

theorem harmonize_eq_self {c : Call} {content : Text}
    (h : joinLines (c.merged (fileLines content)).1 = PyText.universalNewlines content) :
    (c.harmonize (some content)).1 = content := if_pos h

theorem harmonize_eq {c : Call} {content : Text}
    (h : joinLines (c.merged (fileLines content)).1 ≠ PyText.universalNewlines content) :
    (c.harmonize (some content)).1 = joinLines (c.merged (fileLines content)).1 := if_neg h

/-- The text behind a call, as it is read, is the lines that the call writes. -/
theorem Call.Writable.harmonize {c : Call} {file : Option Text} (h : c.Writable (inLines file)) :
    PyText.universalNewlines (c.harmonize file).1 = joinLines (c.outLines file) := by
  have hout := universalNewlines_joinLines h.outLines
  cases file with
  | none => exact hout
  | some content =>
      by_cases hsame : joinLines (c.merged (fileLines content)).1 = PyText.universalNewlines content
      · rw [harmonize_eq_self hsame]
        exact hsame.symm
      · rw [harmonize_eq hsame]
        exact hout

theorem Call.Writable.fileLines {c : Call} {file : Option Text} (h : c.Writable (inLines file)) :
    fileLines (c.harmonize file).1 = c.outLines file := by
  rw [Mesh.fileLines, h.harmonize, joinLines_eq, PyText.splitlines_lines h.outLines]

/-! ## The second run -/

/-- The same arguments with no key to replace. -/
def Call.again (c : Call) (timestamp : { ts : Text // OneLine ts }) : Call :=
  { c with replaceKeys := [], timestamp }

theorem settle_of_none {c : Call} {key : Text} (h : Entries.get? c.pending key = none) (raw : Text) :
    c.settle key raw = raw := by
  rw [Call.settle, h]

theorem settle_of_some {c : Call} {key value : Text} (h : Entries.get? c.pending key = some value)
    (raw : Text) :
    c.settle key raw = if key ∈ c.replaceKeys ∨ isEmptyValue raw = true then value else raw := by
  rw [Call.settle, h]

def Call.unmanaged (c : Call) (line : Text) : Bool :=
  (keyLine line).all fun kr => decide (kr.1 ∉ c.keys)

/-- A call loses no value: what is read of a key that is not replaced is read as before, an empty
managed key gets its value, the other lines stay, and the same call changes nothing more. -/
structure Call.LosesNothing (c : Call) (file : Option Text) : Prop where
  kept : ∀ key ∉ c.replaceKeys, readDotenvKey file key ≠ [] →
    readDotenvKey (some (c.harmonize file).1) key = readDotenvKey file key
  filled : ∀ key ∈ c.keys, readDotenvKey file key = [] → ∀ value, c.values.get? key = some value →
    value ≠ [] → readDotenvKey (some (c.harmonize file).1) key = unquoteDotenvValue value
  frame : ((inLines file).filter c.unmanaged).Sublist (fileLines (c.harmonize file).1)
  again : ∀ timestamp,
    ((c.again timestamp).harmonize (some (c.harmonize file).1)).1 = (c.harmonize file).1

/-- The reader and the writer agree: every key that is written is one that a line can declare, and
where the last declaration of a managed key is empty behind another that is not, the value read is
the one that is given anew. -/
structure Call.Agrees (c : Call) (file : Option Text) : Prop where
  keys : ∀ kv ∈ c.pending, IsKey kv.1
  last : ∀ key ∈ c.keys, key ∉ c.replaceKeys → readDotenvKey file key ≠ [] →
    ∀ raw, (declared key (inLines file)).getLast? = some raw → isEmptyValue raw = true →
      ∃ value, c.values.get? key = some value ∧ unquoteDotenvValue value = readDotenvKey file key

theorem length_le_rendered (c : Call) (lines : List Text) :
    lines.length ≤ (c.rendered lines).length := by
  induction lines with
  | nil => simp
  | cons line lines ih =>
      have hrender : 1 ≤ (c.render line lines).length := by
        rw [Call.render]
        split
        · simp
        · split
          · simp
          · split
            · simp
            · rw [Call.effective]
              split
              · simp
              · split
                · simp
                · split <;> simp
      rw [Call.rendered, List.length_append, List.length_cons]
      omega

theorem length_le_count_joinLines (out : List Text) : out.length ≤ (joinLines out).count '\n' := by
  rw [joinLines_eq]
  induction out with
  | nil => simp
  | cons line out ih =>
      rw [List.flatMap_cons, List.count_append, List.count_append, List.length_cons,
        List.count_singleton_self]
      omega

/-- A call that changes nothing writes no more lines than there are. -/
theorem length_outLines_le {c : Call} {content : Text}
    (h : (c.harmonize (some content)).1 = content) :
    (c.outLines (some content)).length ≤ (fileLines content).length := by
  have hcount := length_le_count_joinLines (c.merged (fileLines content)).1
  by_cases hsame : joinLines (c.merged (fileLines content)).1 = PyText.universalNewlines content
  · rw [hsame] at hcount
    exact hcount.trans (PyText.count_le_length_splitlines _)
  · rw [← harmonize_eq hsame, h] at hcount
    exact hcount.trans ((PyText.count_le_universalNewlines _).trans
      (PyText.count_le_length_splitlines _))

/-- A pending key that no line can declare is written again and again. -/
theorem isKey_of_again {c : Call} {content : Text} (h : (c.harmonize (some content)).1 = content) :
    ∀ kv ∈ c.pending, IsKey kv.1 := by
  intro kv hkv
  by_contra hkey
  have hundeclared : (fileLines content).any (declares kv.1) = false := by
    rw [List.any_eq_false]
    intro line _ hline
    rw [declares_eq_isSome] at hline
    obtain ⟨raw, hraw⟩ := Option.isSome_iff_exists.mp hline
    cases hkl : keyLine line with
    | none =>
        rw [declaredBy_of_none hkl] at hraw
        cases hraw
    | some kr =>
        rw [declaredBy_eq hkl, Option.ite_none_right_eq_some] at hraw
        exact hkey (hraw.1 ▸ (keyLine_eq_some.mp hkl).1)
  have hmissing : kv ∈ c.missing (fileLines content) :=
    List.mem_filter.mpr ⟨hkv, by simp [undeclared, hundeclared]⟩
  obtain ⟨notes, -, -, heq⟩ := outLines_eq c (some content)
  have hle := length_outLines_le h
  have hrendered := length_le_rendered c (fileLines content)
  have hpos := List.length_pos_of_mem hmissing
  rw [heq, List.length_append, List.length_append, List.length_map, sortedByKey,
    List.length_insertionSort] at hle
  change (c.rendered (fileLines content)).length + notes.length +
    (c.missing (fileLines content)).length ≤ _ at hle
  omega

theorem unmanaged_sublist_rendered (c : Call) (lines : List Text) :
    (lines.filter c.unmanaged).Sublist (c.rendered lines) := by
  induction lines with
  | nil => simp [Call.rendered]
  | cons line lines ih =>
      rw [Call.rendered]
      by_cases hline : c.unmanaged line = true
      · have hrender : c.render line lines = [line] := by
          rw [Call.unmanaged] at hline
          rw [Call.render]
          cases hkl : keyLine line with
          | none => rfl
          | some kr =>
              rw [hkl, Option.all_some, decide_eq_true_eq] at hline
              exact if_pos hline
        rw [List.filter_cons_of_pos hline, hrender]
        exact ih.cons_cons line
      · rw [List.filter_cons_of_neg hline]
        exact ih.trans (List.sublist_append_right _ _)

theorem get?_pending {c : Call} {key value : Text} :
    Entries.get? c.pending key = some value ↔
      key ∈ c.keys ∧ c.values.get? key = some value ∧ value ≠ [] := by
  constructor
  · intro h
    obtain ⟨hmem, hcond⟩ := List.mem_filter.mp (Entries.mem_of_get? h)
    rw [decide_eq_true_eq] at hcond
    exact ⟨hcond.1, Entries.get?_of_mem c.values.nodup hmem, hcond.2⟩
  · rintro ⟨hkey, hget, hne⟩
    refine Entries.get?_of_mem ((List.filter_sublist.map _).nodup c.values.nodup) ?_
    exact List.mem_filter.mpr ⟨Entries.mem_of_get? hget, by simp [hkey, hne]⟩

theorem readDotenvKey_eq_lastValue (file : Option Text) (key : Text) :
    readDotenvKey file key = lastValue (declared key (inLines file)) := by
  cases file with
  | none => rfl
  | some content => exact readDotenvKey_eq content key

/-- What is read when the last declaration is not empty. -/
theorem lastValue_of_getLast? {raws : List Text} {raw : Text} (h : raws.getLast? = some raw)
    (hne : isEmptyValue raw ≠ true) : lastValue raws = unquoteDotenvValue raw := by
  obtain ⟨before, rfl⟩ := List.getLast?_eq_some_iff.mp h
  exact lastValue_append_of_ne before fun hnil => hne (isEmptyValue_iff.mpr hnil)

theorem Call.Writable.read {c : Call} {file : Option Text} (h : c.Writable (inLines file))
    (key : Text) :
    readDotenvKey (some (c.harmonize file).1) key = lastValue (declared key (c.outLines file)) := by
  rw [readDotenvKey_eq, h.fileLines]

theorem Call.Writable.kept {c : Call} {file : Option Text} (hwritable : c.Writable (inLines file))
    (h : c.Agrees file) {key : Text} (hreplace : key ∉ c.replaceKeys)
    (hne : readDotenvKey file key ≠ []) :
    readDotenvKey (some (c.harmonize file).1) key = readDotenvKey file key := by
  rw [hwritable.read]
  by_cases hkey : key ∈ c.keys
  · rw [declared_outLines h.keys hkey]
    cases hlast : (declared key (inLines file)).getLast? with
    | none =>
        rw [readDotenvKey_eq_lastValue, List.getLast?_eq_none_iff.mp hlast] at hne
        exact absurd rfl hne
    | some raw =>
        dsimp only
        rw [lastValue_singleton]
        by_cases hempty : isEmptyValue raw = true
        · obtain ⟨value, hvalue, hunquote⟩ := h.last key hkey hreplace hne raw hlast hempty
          have hget : Entries.get? c.pending key = some value := by
            refine get?_pending.mpr ⟨hkey, hvalue, ?_⟩
            rintro rfl
            exact hne (hunquote.symm.trans (by decide))
          rw [settle_of_some hget, if_pos (.inr hempty), hunquote]
        · have hraw : c.settle key raw = raw := by
            cases hget : Entries.get? c.pending key with
            | none => exact settle_of_none hget raw
            | some value =>
                rw [settle_of_some hget]
                exact if_neg (not_or.mpr ⟨hreplace, hempty⟩)
          rw [hraw, readDotenvKey_eq_lastValue, lastValue_of_getLast? hlast hempty]
  · rw [declared_outLines_of_notMem h.keys hkey, ← readDotenvKey_eq_lastValue]

theorem Call.Writable.filled {c : Call} {file : Option Text} (h : c.Writable (inLines file))
    {key value : Text} (hkey : key ∈ c.keys) (hnil : readDotenvKey file key = [])
    (hvalue : c.values.get? key = some value) (hne : value ≠ []) :
    readDotenvKey (some (c.harmonize file).1) key = unquoteDotenvValue value := by
  have hget : Entries.get? c.pending key = some value := get?_pending.mpr ⟨hkey, hvalue, hne⟩
  rw [readDotenvKey_eq_lastValue, lastValue_eq_nil] at hnil
  rw [h.read, declared_outLines h.keys hkey, hget]
  cases hlast : (declared key (inLines file)).getLast? with
  | none => exact lastValue_singleton value
  | some raw =>
      have hempty := isEmptyValue_iff.mpr (hnil raw (List.mem_of_getLast? hlast))
      dsimp only
      rw [lastValue_singleton, settle_of_some hget, if_pos (.inr hempty)]

theorem Call.Writable.frame {c : Call} {file : Option Text} (h : c.Writable (inLines file)) :
    ((inLines file).filter c.unmanaged).Sublist (Mesh.fileLines (c.harmonize file).1) := by
  obtain ⟨notes, -, -, heq⟩ := outLines_eq c file
  rw [h.fileLines, heq, List.append_assoc]
  exact (unmanaged_sublist_rendered c _).trans (List.sublist_append_left _ _)

theorem Call.LosesNothing.keys {c : Call} {file : Option Text} (h : c.LosesNothing file) :
    ∀ kv ∈ c.pending, IsKey kv.1 := by
  have hagain := isKey_of_again (h.again c.timestamp)
  exact hagain

def sampleCall : Call where
  values := { entries := [("TOKEN".toList, "new".toList)], nodup := by decide }

end Perpetua.Mesh
