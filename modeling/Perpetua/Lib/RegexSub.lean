import Mathlib.Data.List.Induction
import Mathlib.Data.List.Infix
import Perpetua.Lib.Regex

/-!
# What substitution leaves

When a pattern matches, apart from how the match is searched for; and that a substitution leaves no
match of its pattern and makes none of another one, if the two have their matches between boundaries
of one kind and the replacement cannot be a part of a match.
-/

namespace Regex

variable {r : Pattern} {s u v : List Char} {last : Option Char}

/-! ## Matching -/

/-- The last character before what follows a text. -/
def after : Option Char → List Char → Option Char
  | last, [] => last
  | _, c :: s => after (some c) s

@[simp] theorem after_nil (last : Option Char) : after last [] = last := rfl

@[simp] theorem after_cons (last : Option Char) (c : Char) (s : List Char) :
    after last (c :: s) = after (some c) s := rfl

theorem after_append (last : Option Char) (s t : List Char) :
    after last (s ++ t) = after (after last s) t := by
  induction s generalizing last with
  | nil => rfl
  | cons c s ih => exact ih (some c)

/-- The pattern matches `u` between the character `last` and the text `rest`. -/
def Matches : Pattern → Option Char → List Char → List Char → Prop
  | [], _, u, _ => u = []
  | .rep p min max :: r, last, u, rest =>
      ∃ v w, u = v ++ w ∧ (∀ c ∈ v, p c) ∧ min ≤ v.length ∧ (∀ n ∈ max, v.length ≤ n) ∧
        Matches r (after last v) w rest
  | .boundary isWord :: r, last, u, rest =>
      last.any isWord ≠ (u ++ rest).head?.any isWord ∧ Matches r last u rest

/-- One run of a class, as the search for a match goes through it. -/
theorem matchRep_eq_some {p : Char → Bool} {k : Option Char → List Char → Option (List Char)}
    {min : ℕ} {max : Option ℕ} {rest : List Char} (h : matchRep p k min max last s = some rest) :
    ∃ v t, s = v ++ t ∧ (∀ c ∈ v, p c) ∧ min ≤ v.length ∧ (∀ n ∈ max, v.length ≤ n) ∧
      k (after last v) t = some rest := by
  induction s generalizing min max last with
  | nil =>
      rw [matchRep] at h
      split at h
      · rename_i hmin
        exact ⟨[], [], rfl, by simp, by simp [hmin], by simp, h⟩
      · cases h
  | cons c s ih =>
      rw [matchRep] at h
      split at h
      · rename_i hlonger
        cases h
        split at hlonger
        · rename_i hc
          obtain ⟨v, t, rfl, hv, hmin, hmax, hk⟩ := ih hlonger
          refine ⟨c :: v, t, rfl, ?_, ?_, ?_, hk⟩
          · simpa using ⟨hc.1, hv⟩
          · rw [List.length_cons]
            omega
          · intro n hn
            obtain rfl := Option.mem_def.mp hn
            have hle := hmax (n - 1) rfl
            have hne : n ≠ 0 := fun h0 => hc.2 (by rw [h0])
            rw [List.length_cons]
            omega
        · cases hlonger
      · split at h
        · rename_i hmin
          exact ⟨[], c :: s, rfl, by simp, by simp [hmin], by simp, h⟩
        · cases h

theorem matchRep_isSome {p : Char → Bool} {k : Option Char → List Char → Option (List Char)}
    {min : ℕ} {max : Option ℕ} (hv : ∀ c ∈ v, p c) (hmin : min ≤ v.length)
    (hmax : ∀ n ∈ max, v.length ≤ n) (hk : (k (after last v) s).isSome) :
    (matchRep p k min max last (v ++ s)).isSome := by
  induction v generalizing min max last with
  | nil =>
      have hzero : min = 0 := Nat.le_zero.mp hmin
      cases s with
      | nil => rwa [List.append_nil, matchRep, if_pos hzero]
      | cons c s =>
          rw [List.nil_append, matchRep]
          split
          · rfl
          · rwa [if_pos hzero]
  | cons c v ih =>
      have hc : p c ∧ max ≠ some 0 := by
        refine ⟨hv c List.mem_cons_self, ?_⟩
        rintro rfl
        exact absurd (hmax 0 rfl) (by simp)
      have hlonger : (matchRep p k (min - 1) (max.map (· - 1)) (some c) (v ++ s)).isSome := by
        apply ih (fun d hd => hv d (List.mem_cons_of_mem c hd)) _ _ hk
        · rw [List.length_cons] at hmin
          omega
        · intro n hn
          obtain ⟨m, hm, rfl⟩ := Option.map_eq_some_iff.mp hn
          have hle := hmax m hm
          rw [List.length_cons] at hle
          omega
      obtain ⟨rest, hrest⟩ := Option.isSome_iff_exists.mp hlonger
      rw [List.cons_append, matchRep, if_pos hc, hrest]
      rfl

theorem matches_of_matchAt {rest : List Char} (h : matchAt r last s = some rest) :
    ∃ u, s = u ++ rest ∧ Matches r last u rest := by
  induction r generalizing last s with
  | nil =>
      cases h
      exact ⟨[], rfl, rfl⟩
  | cons item r ih =>
      cases item with
      | rep p min max =>
          obtain ⟨v, t, rfl, hv, hmin, hmax, hk⟩ := matchRep_eq_some h
          obtain ⟨w, rfl, hw⟩ := ih hk
          exact ⟨v ++ w, by rw [List.append_assoc], v, w, rfl, hv, hmin, hmax, hw⟩
      | boundary isWord =>
          rw [matchAt] at h
          split at h
          · rename_i hedge
            obtain ⟨u, rfl, hu⟩ := ih h
            exact ⟨u, rfl, hedge, hu⟩
          · cases h

theorem matchAt_isSome {rest : List Char} (h : Matches r last u rest) :
    (matchAt r last (u ++ rest)).isSome := by
  induction r generalizing last u with
  | nil =>
      obtain rfl : u = [] := h
      rfl
  | cons item r ih =>
      cases item with
      | rep p min max =>
          obtain ⟨v, w, rfl, hv, hmin, hmax, hw⟩ := h
          rw [List.append_assoc]
          exact matchRep_isSome hv hmin hmax (ih hw)
      | boundary isWord =>
          rw [matchAt, if_pos h.1]
          exact ih h.2

/-- Nothing that starts here matches. -/
def Unmatched (r : Pattern) (last : Option Char) (s : List Char) : Prop :=
  ∀ u rest, s = u ++ rest → ¬Matches r last u rest

theorem matchAt_eq_none : matchAt r last s = none ↔ Unmatched r last s := by
  constructor
  · rintro h u rest rfl hu
    have hsome := matchAt_isSome hu
    rw [h] at hsome
    cases hsome
  · intro h
    cases hmatch : matchAt r last s with
    | none => rfl
    | some rest =>
        obtain ⟨u, hu, hmatches⟩ := matches_of_matchAt hmatch
        exact absurd hmatches (h u rest hu)

/-- One pattern after the other. -/
theorem matches_append {q : Pattern} {rest : List Char} : Matches (r ++ q) last u rest ↔
    ∃ v w, u = v ++ w ∧ Matches r last v (w ++ rest) ∧ Matches q (after last v) w rest := by
  induction r generalizing last u with
  | nil =>
      constructor
      · exact fun h => ⟨[], u, rfl, rfl, h⟩
      · rintro ⟨v, w, rfl, hv, hw⟩
        obtain rfl : v = [] := hv
        exact hw
  | cons item r ih =>
      cases item with
      | rep p min max =>
          constructor
          · rintro ⟨x, y, rfl, hx, hmin, hmax, hy⟩
            obtain ⟨v, w, rfl, hv, hw⟩ := ih.mp hy
            rw [← after_append] at hw
            exact ⟨x ++ v, w, (List.append_assoc x v w).symm, ⟨x, v, rfl, hx, hmin, hmax, hv⟩, hw⟩
          · rintro ⟨_, w, rfl, ⟨x, v, rfl, hx, hmin, hmax, hv⟩, hw⟩
            rw [after_append] at hw
            exact ⟨x, v ++ w, List.append_assoc x v w, hx, hmin, hmax, ih.mpr ⟨v, w, rfl, hv, hw⟩⟩
      | boundary isWord =>
          constructor
          · rintro ⟨hedge, h⟩
            obtain ⟨v, w, rfl, hv, hw⟩ := ih.mp h
            exact ⟨v, w, rfl, ⟨by rwa [← List.append_assoc], hv⟩, hw⟩
          · rintro ⟨v, w, rfl, ⟨hedge, hv⟩, hw⟩
            exact ⟨by rwa [List.append_assoc], ih.mpr ⟨v, w, rfl, hv, hw⟩⟩

theorem minLength_le_of_matches {rest : List Char} (h : Matches r last u rest) :
    minLength r ≤ u.length := by
  induction r generalizing last u with
  | nil => exact Nat.zero_le _
  | cons item r ih =>
      cases item with
      | rep p min max =>
          obtain ⟨v, w, rfl, -, hmin, -, hw⟩ := h
          have hrest := ih hw
          rw [minLength, List.length_append]
          omega
      | boundary isWord => exact ih h.2

/-- The pattern occurs in a text that follows `last`. -/
def Occurs (r : Pattern) (last : Option Char) (s : List Char) : Prop :=
  ∃ a u b, s = a ++ (u ++ b) ∧ Matches r (after last a) u b

theorem searchFrom_iff : searchFrom r last s = true ↔ Occurs r last s := by
  induction s generalizing last with
  | nil =>
      constructor
      · intro h
        obtain ⟨rest, hrest⟩ := Option.isSome_iff_exists.mp h
        obtain ⟨u, hu, hmatches⟩ := matches_of_matchAt hrest
        exact ⟨[], u, rest, hu, hmatches⟩
      · rintro ⟨a, u, b, hs, hmatches⟩
        obtain ⟨rfl, hub⟩ := List.append_eq_nil_iff.mp hs.symm
        have hsome := matchAt_isSome hmatches
        rw [hub] at hsome
        exact hsome
  | cons c s ih =>
      rw [searchFrom, Bool.or_eq_true, ih]
      constructor
      · rintro (h | ⟨a, u, b, rfl, hmatches⟩)
        · obtain ⟨rest, hrest⟩ := Option.isSome_iff_exists.mp h
          obtain ⟨u, hu, hmatches⟩ := matches_of_matchAt hrest
          exact ⟨[], u, rest, hu, hmatches⟩
        · exact ⟨c :: a, u, b, rfl, hmatches⟩
      · rintro ⟨a, u, b, hs, hmatches⟩
        cases a with
        | nil =>
            rw [List.nil_append] at hs
            rw [hs]
            exact Or.inl (matchAt_isSome hmatches)
        | cons d a =>
            rw [List.cons_append, List.cons.injEq] at hs
            obtain ⟨rfl, rfl⟩ := hs
            exact Or.inr ⟨a, u, b, rfl, hmatches⟩

theorem search_eq_false {text : String} : search r text = false ↔ ¬Occurs r none text.toList := by
  rw [← searchFrom_iff, search, Bool.not_eq_true]

/-! ## Substituting -/

/-- A text with some of its pieces replaced. A piece is replaced only where `piece` holds of what is
around it, and a character stays only where `stays` holds. -/
inductive Rewritten (stays : Option Char → List Char → Prop)
    (piece : Option Char → List Char → List Char → Prop) (repl : List Char) :
    Option Char → List Char → List Char → Prop
  | nil {last : Option Char} : Rewritten stays piece repl last [] []
  | keep {last : Option Char} {c : Char} {s s' : List Char} (h : stays last (c :: s))
      (hs : Rewritten stays piece repl (some c) s s') : Rewritten stays piece repl last (c :: s) (c :: s')
  | replace {last : Option Char} {m s s' : List Char} (hm : m ≠ []) (h : piece last m s)
      (hs : Rewritten stays piece repl (after last m) s s') :
      Rewritten stays piece repl last (m ++ s) (repl ++ s')

/-- The match that the search reports. -/
def Reported (r : Pattern) (last : Option Char) (m rest : List Char) : Prop :=
  matchAt r last (m ++ rest) = some rest

theorem Reported.matches {rest : List Char} (h : Reported r last u rest) : Matches r last u rest := by
  obtain ⟨v, hv, hmatches⟩ := matches_of_matchAt h
  obtain rfl := List.append_cancel_right hv
  exact hmatches

/-- What a substitution makes of a text. -/
abbrev Substituted (r : Pattern) (repl : List Char) : Option Char → List Char → List Char → Prop :=
  Rewritten (Unmatched r) (Reported r) repl

/-- Rewriting a text that begins with `a` gets to what follows it. -/
inductive Through (stays : Option Char → List Char → Prop)
    (piece : Option Char → List Char → List Char → Prop) : Option Char → List Char → List Char → Prop
  | nil {last : Option Char} {t : List Char} : Through stays piece last [] t
  | keep {last : Option Char} {c : Char} {a t : List Char} (h : stays last (c :: (a ++ t)))
      (ha : Through stays piece (some c) a t) : Through stays piece last (c :: a) t
  | replace {last : Option Char} {m a t : List Char} (h : piece last m (a ++ t))
      (ha : Through stays piece (after last m) a t) : Through stays piece last (m ++ a) t

theorem subFrom_skip (r : Pattern) (repl : List Char) (last : Option Char) (u s : List Char) :
    subFrom r repl last u.length (u ++ s) = subFrom r repl (after last u) 0 s := by
  induction u generalizing last with
  | nil => rfl
  | cons c u ih => exact ih (some c)

theorem substituted_subFrom (hr : 0 < minLength r) (repl : List Char) (last : Option Char)
    (s : List Char) : Substituted r repl last s (subFrom r repl last 0 s) := by
  induction hn : s.length using Nat.strong_induction_on generalizing last s with
  | _ n ih =>
      cases s with
      | nil => exact .nil
      | cons c s =>
          rw [subFrom]
          cases hmatch : matchAt r last (c :: s) with
          | none =>
              exact .keep (matchAt_eq_none.mp hmatch) (ih s.length (by simp [← hn]) _ s rfl)
          | some rest =>
              obtain ⟨u, hu, hmatches⟩ := matches_of_matchAt hmatch
              have hlength := minLength_le_of_matches hmatches
              cases u with
              | nil =>
                  rw [List.length_nil] at hlength
                  omega
              | cons d u =>
                  rw [List.cons_append, List.cons.injEq] at hu
                  obtain ⟨rfl, rfl⟩ := hu
                  have hskip : (u ++ rest).length - rest.length = u.length := by simp
                  dsimp only
                  rw [hskip, subFrom_skip]
                  have hshort : rest.length < n := by
                    rw [← hn, List.length_cons, List.length_append]
                    omega
                  exact .replace (List.cons_ne_nil c u) hmatch (ih rest.length hshort _ rest rfl)

theorem subFrom_of_not_occurs {repl : List Char} (h : ¬Occurs r last s) :
    subFrom r repl last 0 s = s := by
  induction s generalizing last with
  | nil => rfl
  | cons c s ih =>
      have hhere : Unmatched r last (c :: s) := fun u rest hs hmatches => h ⟨[], u, rest, hs, hmatches⟩
      rw [subFrom, matchAt_eq_none.mpr hhere]
      dsimp only
      rw [ih]
      rintro ⟨a, u, b, rfl, hmatches⟩
      exact h ⟨c :: a, u, b, rfl, hmatches⟩

/-- A text without a match is left as it is. -/
theorem sub_of_search_false {repl text : String} (h : search r text = false) :
    sub r repl text = text := by
  rw [sub, subFrom_of_not_occurs (search_eq_false.mp h), String.ofList_toList]

/-! ## Patterns between boundaries -/

/-- A pattern without boundaries. -/
def Plain (r : Pattern) : Prop := ∀ item ∈ r, ∃ p min max, item = .rep p min max

/-- A body between two boundaries, or alone. -/
def framed (edge : Option (Char → Bool)) (body : Pattern) : Pattern :=
  match edge with
  | none => body
  | some isWord => .boundary isWord :: (body ++ [.boundary isWord])

/-- There are boundaries on both sides of a text. -/
def Sides (edge : Option (Char → Bool)) (last : Option Char) (u rest : List Char) : Prop :=
  ∀ isWord ∈ edge, last.any isWord ≠ u.head?.any isWord ∧
    (after none u).any isWord ≠ rest.head?.any isWord

theorem after_eq_getLast (h : u ≠ []) : after last u = some (u.getLast h) := by
  induction u generalizing last with
  | nil => exact absurd rfl h
  | cons c u ih =>
      cases u with
      | nil => rfl
      | cons d u => exact @ih (some c) (List.cons_ne_nil d u)

theorem append_split {m s a t : List Char} (h : m ++ s = a ++ t) :
    (∃ a', a = m ++ a' ∧ s = a' ++ t) ∨ ∃ d, d ≠ [] ∧ m = a ++ d ∧ d ++ s = t := by
  rcases List.append_eq_append_iff.mp h with ⟨a', ha, hs⟩ | ⟨d, hm, ht⟩
  · exact Or.inl ⟨a', ha, hs⟩
  · cases d with
    | nil => exact Or.inl ⟨[], by rw [hm, List.append_nil, List.append_nil], ht.symm⟩
    | cons c d => exact Or.inr ⟨c :: d, List.cons_ne_nil c d, hm, ht.symm⟩

theorem after_of_ne_nil (h : u ≠ []) (last last' : Option Char) : after last u = after last' u := by
  cases u with
  | nil => exact absurd rfl h
  | cons c u => rfl

/-- Where a body without boundaries matches does not depend on what is around it. -/
theorem Matches.anywhere {rest : List Char} (h : Matches r last u rest) (hr : Plain r)
    (last' : Option Char) (rest' : List Char) : Matches r last' u rest' := by
  induction r generalizing last last' u with
  | nil => exact h
  | cons item r ih =>
      obtain ⟨p, min, max, rfl⟩ := hr item List.mem_cons_self
      obtain ⟨v, w, rfl, hv, hmin, hmax, hw⟩ := h
      have hw' := ih hw (fun i hi => hr i (List.mem_cons_of_mem _ hi)) (after last' v)
      exact ⟨v, w, rfl, hv, hmin, hmax, hw'⟩

theorem matches_append_boundary {isWord : Char → Bool} {rest : List Char} :
    Matches (r ++ [.boundary isWord]) last u rest ↔
      Matches r last u rest ∧ (after last u).any isWord ≠ rest.head?.any isWord := by
  rw [matches_append]
  constructor
  · rintro ⟨v, w, rfl, hv, hedge, hw⟩
    obtain rfl : w = [] := hw
    rw [List.append_nil]
    exact ⟨hv, hedge⟩
  · exact fun ⟨hu, hedge⟩ => ⟨u, [], (List.append_nil u).symm, hu, hedge, rfl⟩

theorem matches_framed {edge : Option (Char → Bool)} {rest : List Char} (hr : Plain r) (hu : u ≠ []) :
    Matches (framed edge r) last u rest ↔ Matches r none u [] ∧ Sides edge last u rest := by
  have hfree : Matches r last u rest ↔ Matches r none u [] :=
    ⟨fun h => h.anywhere hr none [], fun h => h.anywhere hr last rest⟩
  cases edge with
  | none =>
      rw [framed, hfree]
      exact ⟨fun h => ⟨h, nofun⟩, And.left⟩
  | some isWord =>
      have hhead : (u ++ rest).head? = u.head? := by
        cases u with
        | nil => exact absurd rfl hu
        | cons c u => rfl
      rw [framed, Matches, matches_append_boundary, hfree, hhead, after_of_ne_nil hu last none]
      constructor
      · rintro ⟨hleft, hmatches, hright⟩
        refine ⟨hmatches, fun w hw => ?_⟩
        obtain rfl := Option.some.inj hw
        exact ⟨hleft, hright⟩
      · rintro ⟨hmatches, hsides⟩
        obtain ⟨hleft, hright⟩ := hsides isWord rfl
        exact ⟨hleft, hmatches, hright⟩

/-- Every match of the pattern has boundaries on its sides. -/
def Sided (edge : Option (Char → Bool)) (r : Pattern) : Prop :=
  ∀ last u rest, u ≠ [] → Matches r last u rest → Sides edge last u rest

theorem sided_none (r : Pattern) : Sided none r := fun _ _ _ _ _ _ hw => by cases hw

theorem sided_framed {edge : Option (Char → Bool)} (hr : Plain r) : Sided edge (framed edge r) :=
  fun _ _ _ hu h => ((matches_framed hr hu).mp h).2

/-! ## What is left -/

/-- No match of the pattern has an end of the replacement in it, or lies in the replacement. -/
structure Blocks (repl : List Char) (r : Pattern) : Prop where
  ne_nil : repl ≠ []
  head : ∀ c ∈ repl.head?, ∀ last u rest, Matches r last u rest → c ∉ u
  last : ∀ c ∈ repl.getLast?, ∀ last u rest, Matches r last u rest → c ∉ u
  within : ∀ last u rest, Matches r last u rest → ¬u <:+: repl
  pos : 0 < minLength r

theorem Blocks.ne_nil_of_matches {repl rest : List Char} (h : Blocks repl r)
    (hu : Matches r last u rest) : u ≠ [] := by
  have hlength := minLength_le_of_matches hu
  have hpos := h.pos
  rintro rfl
  rw [List.length_nil] at hlength
  omega

/-- Where a match of the body ends or begins at a piece, there is a boundary. -/
structure Apart (edge : Option (Char → Bool)) (body : Pattern) (last : Option Char)
    (m rest : List Char) : Prop where
  left : ∀ u, u ≠ [] → Matches body none u [] → after none u = last →
    ∀ isWord ∈ edge, last.any isWord ≠ m.head?.any isWord
  right : ∀ u, u ≠ [] → Matches body none u [] → u.head? = rest.head? →
    ∀ isWord ∈ edge, (after none m).any isWord ≠ rest.head?.any isWord

section

variable {stays : Option Char → List Char → Prop} {piece : Option Char → List Char → List Char → Prop}
  {repl s' : List Char} {edge : Option (Char → Bool)}

/-- A part of the new text that the replacement does not begin in was in the old one, and what
followed it there begins with the same character or was replaced. -/
theorem Rewritten.kept_prefix {b : List Char} (h : Rewritten stays piece repl last s s')
    (hrepl : repl ≠ []) (hs : s' = v ++ b) (hv : ∀ c ∈ repl.head?, c ∉ v) :
    ∃ b', s = v ++ b' ∧ (∀ v₁ v₂, v = v₁ ++ v₂ → v₂ ≠ [] → stays (after last v₁) (v₂ ++ b')) ∧
      (b'.head? = b.head? ∨ ∃ m rest, m ≠ [] ∧ b' = m ++ rest ∧ piece (after last v) m rest) := by
  induction v generalizing last s s' with
  | nil =>
      refine ⟨s, rfl, fun v₁ v₂ hnil hne => absurd (List.append_eq_nil_iff.mp hnil.symm).2 hne, ?_⟩
      obtain rfl : s' = b := hs
      cases h with
      | nil => exact Or.inl rfl
      | keep _ _ => exact Or.inl rfl
      | @replace _ m s _ hm hpiece _ => exact Or.inr ⟨m, s, hm, rfl, hpiece⟩
  | cons c v ih =>
      cases h with
      | nil => cases hs
      | @keep _ d s s' hstays hrest =>
          rw [List.cons_append, List.cons.injEq] at hs
          obtain ⟨rfl, hs⟩ := hs
          obtain ⟨b', rfl, hall, hb'⟩ :=
            ih hrest hs fun e he hmem => hv e he (List.mem_cons_of_mem _ hmem)
          refine ⟨b', rfl, fun v₁ v₂ heq hne => ?_, hb'⟩
          cases v₁ with
          | nil =>
              rw [List.nil_append] at heq
              exact heq ▸ hstays
          | cons e v₁ =>
              rw [List.cons_append, List.cons.injEq] at heq
              obtain ⟨rfl, heq⟩ := heq
              exact hall v₁ v₂ heq hne
      | @replace _ m s s' _ _ _ =>
          cases repl with
          | nil => exact absurd rfl hrepl
          | cons d repl =>
              rw [List.cons_append, List.cons_append, List.cons.injEq] at hs
              exact absurd (hs.1 ▸ List.mem_cons_self) (hv d rfl)

/-- Where a framed pattern matches in the new text it has matched in the old one, in a stretch that
stays. The text may follow another character than before, if a piece before it was replaced. -/
theorem Rewritten.occurs {body : Pattern} {last' : Option Char} {a b : List Char}
    (h : Rewritten stays piece repl last s s') (hbody : Plain body)
    (hblocks : Blocks repl (framed edge body))
    (hpiece : ∀ last m rest, m ≠ [] → piece last m rest → Apart edge body last m rest)
    (hlast : last' = last ∨ ∃ l m, m ≠ [] ∧ piece l m s ∧ last = after l m)
    (hs : s' = a ++ (u ++ b)) (hu : Matches (framed edge body) (after last' a) u b) :
    ∃ a' b', s = a' ++ (u ++ b') ∧ Matches (framed edge body) (after last a') u b' ∧
      Through stays piece last a' (u ++ b') ∧
      ∀ u₁ u₂, u = u₁ ++ u₂ → u₂ ≠ [] → stays (after (after last a') u₁) (u₂ ++ b') := by
  have hne := hblocks.ne_nil_of_matches hu
  induction h generalizing a last' with
  | nil =>
      obtain ⟨-, hub⟩ := List.append_eq_nil_iff.mp hs.symm
      exact absurd (List.append_eq_nil_iff.mp hub).1 hne
  | @keep last c s s' hstays hrest ih =>
      cases a with
      | nil =>
          have hwhole : Rewritten stays piece repl last (c :: s) (c :: s') := .keep hstays hrest
          have hhead : ∀ d ∈ repl.head?, d ∉ u := fun d hd => hblocks.head d hd _ _ _ hu
          have hs : c :: s' = u ++ b := hs
          obtain ⟨b', hold, hall, hb'⟩ := hwhole.kept_prefix hblocks.ne_nil hs hhead
          obtain ⟨hmatches, hsides⟩ := (matches_framed hbody hne).mp hu
          have hfirst : u.head? = (c :: s).head? := by
            cases u with
            | nil => exact absurd rfl hne
            | cons d u => rw [hold]; rfl
          refine ⟨[], b', hold, (matches_framed hbody hne).mpr ⟨hmatches, fun isWord hw => ?_⟩, .nil,
            hall⟩
          obtain ⟨hleft, hright⟩ := hsides isWord hw
          constructor
          · rcases hlast with rfl | ⟨l, m, hm, hlast, rfl⟩
            · exact hleft
            · rw [after_nil, after_of_ne_nil hm l none, hfirst]
              exact (hpiece l m _ hm hlast).right u hne hmatches hfirst isWord hw
          · rcases hb' with hb' | ⟨m, rest, hm, rfl, hb'⟩
            · rwa [hb']
            · have hhead' : (m ++ rest).head? = m.head? := List.head?_append_of_ne_nil m hm
              rw [hhead', after_of_ne_nil hne none last]
              exact (hpiece _ m rest hm hb').left u hne hmatches (after_of_ne_nil hne none last) isWord hw
      | cons d a =>
          rw [List.cons_append, List.cons.injEq] at hs
          obtain ⟨rfl, hs⟩ := hs
          obtain ⟨a', b', rfl, hmatches, hthrough, hall⟩ := ih (Or.inl rfl) hs hu
          exact ⟨c :: a', b', rfl, hmatches, .keep hstays hthrough, hall⟩
  | @replace last m s s' hm hhere hrest ih =>
      have hlater : ∀ a₁, a = repl ++ a₁ → s' = a₁ ++ (u ++ b) → ∃ a' b', m ++ s = a' ++ (u ++ b') ∧
          Matches (framed edge body) (after last a') u b' ∧ Through stays piece last a' (u ++ b') ∧
          ∀ u₁ u₂, u = u₁ ++ u₂ → u₂ ≠ [] → stays (after (after last a') u₁) (u₂ ++ b') := by
        rintro a₁ rfl hs
        rw [after_append] at hu
        obtain ⟨a', b', rfl, hmatches, hthrough, hall⟩ := ih (Or.inr ⟨last, m, hm, hhere, rfl⟩) hs hu
        rw [← after_append] at hmatches hall
        exact ⟨m ++ a', b', (List.append_assoc _ _ _).symm, hmatches, .replace hhere hthrough, hall⟩
      rcases append_split hs with ⟨a₁, ha, hs'⟩ | ⟨d, hd, hrepl, hs'⟩
      · exact hlater a₁ ha hs'
      · exfalso
        rcases append_split hs' with ⟨y, hy, -⟩ | ⟨x, -, hx, -⟩
        · have hend : d.getLast hd ∈ repl.getLast? := by
            rw [hrepl, List.getLast?_append_of_ne_nil _ hd, List.getLast?_eq_getLast_of_ne_nil hd]
            rfl
          refine hblocks.last _ hend _ _ _ hu ?_
          rw [hy]
          exact List.mem_append_left y (List.getLast_mem hd)
        · exact hblocks.within _ _ _ hu ⟨a, x, by rw [hrepl, hx, List.append_assoc]⟩

/-- A rewritten text has the characters of the old one and of the replacement. -/
theorem Rewritten.mem {c : Char} (h : Rewritten stays piece repl last s s') (hc : c ∈ s') :
    c ∈ s ∨ c ∈ repl := by
  induction h with
  | nil => cases hc
  | keep _ _ ih =>
      rcases List.mem_cons.mp hc with rfl | hc
      · exact Or.inl List.mem_cons_self
      · exact (ih hc).imp_left (List.mem_cons_of_mem _)
  | replace _ _ _ ih =>
      rcases List.mem_append.mp hc with hc | hc
      · exact Or.inr hc
      · exact (ih hc).imp_left (List.mem_append_right _)

theorem apart_none (body : Pattern) (last : Option Char) (m rest : List Char) :
    Apart none body last m rest where
  left _ _ _ _ _ hw := by cases hw
  right _ _ _ _ _ hw := by cases hw

theorem Sided.apart {last : Option Char} {m rest : List Char} {body : Pattern} (hr : Sided edge r)
    (hm : m ≠ []) (h : Reported r last m rest) : Apart edge body last m rest where
  left _ _ _ _ isWord hw := (hr _ _ _ hm h.matches isWord hw).1
  right _ _ _ _ isWord hw := (hr _ _ _ hm h.matches isWord hw).2

end

/-- A pattern that the replacement cannot make a match of: a body of runs between boundaries of one
kind, or alone. -/
structure Enclosed (repl : String) (edge : Option (Char → Bool)) (q : Pattern) : Prop where
  framed : ∃ body, q = framed edge body ∧ Plain body
  blocks : Blocks repl.toList q

section

variable {repl text : String} {edge : Option (Char → Bool)} {q : Pattern}

theorem Enclosed.sided (hr : Enclosed repl edge r) : Sided edge r := by
  obtain ⟨body, rfl, hbody⟩ := hr.framed
  exact sided_framed hbody

/-- A match that rewriting leaves was there before, in a stretch that stays. -/
theorem Enclosed.occurrence {stays : Option Char → List Char → Prop}
    {piece : Option Char → List Char → List Char → Prop} {s a u b : List Char}
    (hq : Enclosed repl edge q) (h : Rewritten stays piece repl.toList none text.toList s)
    (hpiece : ∀ body last m rest, q = Regex.framed edge body → m ≠ [] → piece last m rest →
      Apart edge body last m rest)
    (hs : s = a ++ (u ++ b)) (hu : Matches q (after none a) u b) :
    ∃ a' b', text.toList = a' ++ (u ++ b') ∧ Matches q (after none a') u b' ∧
      Through stays piece none a' (u ++ b') ∧
      ∀ u₁ u₂, u = u₁ ++ u₂ → u₂ ≠ [] → stays (after (after none a') u₁) (u₂ ++ b') := by
  obtain ⟨body, rfl, hbody⟩ := hq.framed
  exact h.occurs hbody hq.blocks (fun last m rest => hpiece body last m rest rfl) (Or.inl rfl) hs hu

/-- A match that a substitution leaves was there before, in a stretch where the substituted pattern
did not match. -/
theorem Enclosed.occurrence_sub {a u b : List Char} (hq : Enclosed repl edge q) (hr : Sided edge r)
    (hpos : 0 < minLength r) (hs : (sub r repl text).toList = a ++ (u ++ b))
    (hu : Matches q (after none a) u b) :
    ∃ a' b', text.toList = a' ++ (u ++ b') ∧ Matches q (after none a') u b' ∧
      Through (Unmatched r) (Reported r) none a' (u ++ b') ∧
      ∀ u₁ u₂, u = u₁ ++ u₂ → u₂ ≠ [] → Unmatched r (after (after none a') u₁) (u₂ ++ b') := by
  rw [sub, String.toList_ofList] at hs
  exact hq.occurrence (substituted_subFrom hpos _ _ _) (fun _ _ _ _ _ hm hreported =>
    hr.apart hm hreported) hs hu

/-- A substitution between the boundaries of a pattern makes no match of it. -/
theorem Enclosed.search_sub (hq : Enclosed repl edge q) (hr : Sided edge r) (hpos : 0 < minLength r)
    (h : search q text = false) : search q (sub r repl text) = false := by
  rw [search_eq_false] at h ⊢
  rintro ⟨a, u, b, hs, hu⟩
  obtain ⟨a', b', hold, hmatches, -⟩ := hq.occurrence_sub hr hpos hs hu
  exact h ⟨a', u, b', hold, hmatches⟩

/-- A substitution leaves no match of its own pattern. -/
theorem Enclosed.search_sub_self (hr : Enclosed repl edge r) (text : String) :
    search r (sub r repl text) = false := by
  rw [search_eq_false]
  rintro ⟨a, u, b, hs, hu⟩
  have hne := hr.blocks.ne_nil_of_matches hu
  obtain ⟨a', b', -, hmatches, -, hstays⟩ := hr.occurrence_sub hr.sided hr.blocks.pos hs hu
  exact hstays [] u rfl hne u b' rfl hmatches

/-- One substitution after the other leaves no match of any of the patterns, when none of them makes
a match of one before it. -/
theorem search_foldl_sub {rs : List Pattern}
    (hself : ∀ r ∈ rs, ∀ text, search r (sub r repl text) = false)
    (hlater : rs.Pairwise fun q r => ∀ text, search q text = false → search q (sub r repl text) = false)
    (text : String) : ∀ r ∈ rs, search r (rs.foldl (fun s r => sub r repl s) text) = false := by
  induction rs using List.reverseRecOn with
  | nil => intro r hr; cases hr
  | append_singleton rs last ih =>
      obtain ⟨hpairs, -, hmakes⟩ := List.pairwise_append.mp hlater
      have hbefore := ih (fun r hr => hself r (List.mem_append_left _ hr)) hpairs
      intro r hr
      rw [List.foldl_append, List.foldl_cons, List.foldl_nil]
      rcases List.mem_append.mp hr with hr | hr
      · exact hmakes r hr last List.mem_cons_self _ (hbefore r hr)
      · obtain rfl := List.mem_singleton.mp hr
        exact hself r (List.mem_append_right _ hr) _

theorem foldl_sub_induction {rs : List Pattern} {P : String → Prop}
    (hsub : ∀ r ∈ rs, ∀ text, P text → P (sub r repl text)) (h : P text) :
    P (rs.foldl (fun s r => sub r repl s) text) := by
  induction rs generalizing text with
  | nil => exact h
  | cons r rs ih =>
      rw [List.foldl_cons]
      apply ih fun q hq => hsub q (List.mem_cons_of_mem r hq)
      exact hsub r List.mem_cons_self text h

theorem foldl_sub_of_search_false {rs : List Pattern} (h : ∀ r ∈ rs, search r text = false) :
    rs.foldl (fun s r => sub r repl s) text = text := by
  induction rs with
  | nil => rfl
  | cons r rs ih =>
      rw [List.foldl_cons, sub_of_search_false (h r List.mem_cons_self)]
      exact ih fun q hq => h q (List.mem_cons_of_mem r hq)

end

/-! ## Characters that no match has -/

/-- No class of the pattern has the character. -/
def Excludes (c : Char) : Pattern → Prop
  | [] => True
  | .rep p _ _ :: r => p c = false ∧ Excludes c r
  | .boundary _ :: r => Excludes c r

theorem Excludes.not_mem {c : Char} {rest : List Char} (hr : Excludes c r)
    (h : Matches r last u rest) : c ∉ u := by
  induction r generalizing last u with
  | nil =>
      obtain rfl : u = [] := h
      exact List.not_mem_nil
  | cons item r ih =>
      cases item with
      | rep p min max =>
          obtain ⟨v, w, rfl, hv, -, -, hw⟩ := h
          rw [List.mem_append, not_or]
          refine ⟨fun hc => ?_, ih hr.2 hw⟩
          have hp := hv c hc
          rw [hr.1] at hp
          cases hp
      | boundary isWord => exact ih hr h.2

/-- Every match has a character of a class that has to be there. -/
theorem exists_mem_of_matches {p : Char → Bool} {min : ℕ} {max : Option ℕ} {rest : List Char}
    (hitem : .rep p min max ∈ r) (hmin : 0 < min) (h : Matches r last u rest) : ∃ c ∈ u, p c := by
  induction r generalizing last u with
  | nil => cases hitem
  | cons item r ih =>
      cases item with
      | rep q min' max' =>
          obtain ⟨v, w, rfl, hv, hv', -, hw⟩ := h
          rcases List.mem_cons.mp hitem with heq | hitem
          · cases heq
            obtain ⟨c, hc⟩ := List.exists_mem_of_length_pos (Nat.lt_of_lt_of_le hmin hv')
            exact ⟨c, List.mem_append_left w hc, hv c hc⟩
          · obtain ⟨c, hc, hp⟩ := ih hitem hw
            exact ⟨c, List.mem_append_right v hc, hp⟩
      | boundary isWord =>
          rcases List.mem_cons.mp hitem with heq | hitem
          · cases heq
          · exact ih hitem h.2

/-- A match begins with a character of its first class. -/
theorem head_of_matches {p : Char → Bool} {min : ℕ} {max : Option ℕ} {rest : List Char} (hmin : 0 < min)
    (h : Matches (.rep p min max :: r) last u rest) : ∃ c, u.head? = some c ∧ p c := by
  obtain ⟨v, w, rfl, hv, hlen, -, -⟩ := h
  cases v with
  | nil => exact absurd (Nat.lt_of_lt_of_le hmin hlen) (Nat.lt_irrefl 0)
  | cons c v => exact ⟨c, rfl, hv c List.mem_cons_self⟩

/-- A match ends with a character of its last class. -/
theorem last_of_matches {p : Char → Bool} {min : ℕ} {max : Option ℕ} {rest : List Char} (hmin : 0 < min)
    (h : Matches (r ++ [.rep p min max]) last u rest) : ∃ c, after last u = some c ∧ p c := by
  obtain ⟨v, _, rfl, -, w, x, rfl, hw, hlen, -, hx⟩ := matches_append.mp h
  obtain rfl : x = [] := hx
  have hne : w ≠ [] := List.length_pos_iff.mp (Nat.lt_of_lt_of_le hmin hlen)
  refine ⟨w.getLast hne, ?_, hw _ (List.getLast_mem hne)⟩
  rw [List.append_nil, after_append, after_eq_getLast hne]

section

variable {repl : List Char} (hne : repl ≠ []) (hpos : 0 < minLength r)
  (hends : ∀ c, c ∈ repl.head? ∨ c ∈ repl.getLast? → Excludes c r)

include hne hpos hends

/-- A replacement shorter than any match. -/
theorem Blocks.of_short (hshort : repl.length < minLength r) : Blocks repl r where
  ne_nil := hne
  head c hc _ _ _ h := (hends c (Or.inl hc)).not_mem h
  last c hc _ _ _ h := (hends c (Or.inr hc)).not_mem h
  within _ _ _ h hin := by
    have hlength := minLength_le_of_matches h
    have hle := hin.length_le
    omega
  pos := hpos

/-- A replacement that lacks a character that every match has. -/
theorem Blocks.of_lacking (p : Char → Bool) {min : ℕ} (max : Option ℕ) (hitem : .rep p min max ∈ r)
    (hmin : 0 < min) (hlacks : ∀ c ∈ repl, p c = false) : Blocks repl r where
  ne_nil := hne
  head c hc _ _ _ h := (hends c (Or.inl hc)).not_mem h
  last c hc _ _ _ h := (hends c (Or.inr hc)).not_mem h
  within _ _ _ h hin := by
    obtain ⟨c, hc, hp⟩ := exists_mem_of_matches hitem hmin h
    rw [hlacks c (hin.subset hc)] at hp
    cases hp
  pos := hpos

end

end Regex
