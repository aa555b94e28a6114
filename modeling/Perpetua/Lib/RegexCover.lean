import Perpetua.Lib.RegexSub

/-!
# Two patterns for one kind of text

Patterns that agree on the characters of a text match alike in it. And when a substitution of one
pattern leaves no match of another one without boundaries: exactly when every match of this one has a
character in common with a match of the first.
-/

namespace Regex

variable {r r' : Pattern} {u : List Char} {last : Option Char}

/-! ## Agreement on some characters -/

/-- The classes agree on the characters of `A` and the boundaries on those of `B`. -/
inductive Agree (A B : Char → Prop) : Pattern → Pattern → Prop
  | nil : Agree A B [] []
  | rep {p p' : Char → Bool} {min : ℕ} {max : Option ℕ} {r r' : Pattern}
      (hp : ∀ c, A c → p c = p' c) (hr : Agree A B r r') :
      Agree A B (.rep p min max :: r) (.rep p' min max :: r')
  | boundary {p p' : Char → Bool} {r r' : Pattern} (hp : ∀ c, B c → p c = p' c)
      (hr : Agree A B r r') : Agree A B (.boundary p :: r) (.boundary p' :: r')

variable {A B : Char → Prop}

theorem Agree.append {q q' : Pattern} (h : Agree A B r r') (hq : Agree A B q q') :
    Agree A B (r ++ q) (r' ++ q') := by
  induction h with
  | nil => exact hq
  | rep hp _ ih => exact .rep hp ih
  | boundary hp _ ih => exact .boundary hp ih

theorem Agree.refl (r : Pattern) : Agree A B r r := by
  induction r with
  | nil => exact .nil
  | cons item r ih =>
      cases item with
      | rep p min max => exact .rep (fun _ _ => rfl) ih
      | boundary p => exact .boundary (fun _ _ => rfl) ih

theorem Agree.symm (h : Agree A B r r') : Agree A B r' r := by
  induction h with
  | nil => exact .nil
  | rep hp _ ih => exact .rep (fun c hc => (hp c hc).symm) ih
  | boundary hp _ ih => exact .boundary (fun c hc => (hp c hc).symm) ih

theorem any_congr {p p' : Char → Bool} {o : Option Char} (hp : ∀ c, B c → p c = p' c)
    (ho : ∀ c ∈ o, B c) : o.any p = o.any p' := by
  cases o with
  | none => rfl
  | some c => exact hp c (ho c rfl)

theorem mem_after {c : Char} (h : c ∈ after last u) : c ∈ last ∨ c ∈ u := by
  induction u generalizing last with
  | nil => exact Or.inl h
  | cons d u ih =>
      rcases ih h with h | h
      · cases h
        exact Or.inr List.mem_cons_self
      · exact Or.inr (List.mem_cons_of_mem d h)

/-- Patterns that agree on a match and on what is around it match it alike. -/
theorem Matches.congr {rest : List Char} (h : Matches r last u rest) (hr : Agree A B r r')
    (hlast : ∀ c ∈ last, B c) (hu : ∀ c ∈ u, A c ∧ B c) (hrest : ∀ c ∈ rest.head?, B c) :
    Matches r' last u rest := by
  induction hr generalizing last u with
  | nil => exact h
  | @rep p p' min max r r' hp _ ih =>
      obtain ⟨v, w, rfl, hv, hmin, hmax, hw⟩ := h
      rw [List.forall_mem_append] at hu
      refine ⟨v, w, rfl, fun c hc => ?_, hmin, hmax, ih hw ?_ hu.2⟩
      · rw [← hp c (hu.1 c hc).1]
        exact hv c hc
      · intro c hc
        rcases mem_after hc with hc | hc
        · exact hlast c hc
        · exact (hu.1 c hc).2
  | @boundary p p' r r' hp _ ih =>
      refine ⟨?_, ih h.2 hlast hu⟩
      have hhead : ∀ c ∈ (u ++ rest).head?, B c := by
        intro c hc
        cases u with
        | nil => exact hrest c hc
        | cons d u =>
            cases hc
            exact (hu c List.mem_cons_self).2
      rw [← any_congr hp hlast, ← any_congr hp hhead]
      exact h.1

/-- Patterns that agree on the characters of a text occur in it alike. -/
theorem search_congr {text : String} (hr : Agree A A r r') (htext : ∀ c ∈ text.toList, A c) :
    search r text = search r' text := by
  have hone : ∀ {q q' : Pattern}, Agree A A q q' → search q text = true → search q' text = true := by
    intro q q' hq h
    obtain ⟨a, u, b, hs, hu⟩ := searchFrom_iff.mp h
    rw [hs] at htext
    rw [List.forall_mem_append, List.forall_mem_append] at htext
    refine searchFrom_iff.mpr ⟨a, u, b, hs, hu.congr hq ?_ ?_ ?_⟩
    · intro c hc
      rcases mem_after hc with hc | hc
      · cases hc
      · exact htext.1 c hc
    · exact fun c hc => ⟨htext.2.1 c hc, htext.2.1 c hc⟩
    · exact fun c hc => htext.2.2 c (List.mem_of_mem_head? hc)
  exact Bool.eq_iff_iff.mpr ⟨hone hr, hone hr.symm⟩

/-! ## Greedy matches -/

/-- No match that begins in a reported one ends after it. -/
def Absorbs (r : Pattern) : Prop :=
  ∀ last m rest, Reported r last m rest → ∀ m₁ m₂ v t, m = m₁ ++ m₂ → m₂ ≠ [] →
    m₂ ++ rest = v ++ t → Matches r (after last m₁) v t → v.length ≤ m₂.length

/-- The match of a run is the longest one, if what follows takes no characters. -/
theorem matchRep_longest {p : Char → Bool} {k : Option Char → List Char → Option (List Char)}
    (hk : ∀ last s rest, k last s = some rest → rest = s) {min : ℕ} {last : Option Char}
    {s rest v t : List Char} (h : matchRep p k min none last s = some rest) (hs : s = v ++ t)
    (hv : ∀ c ∈ v, p c) (hmin : min ≤ v.length) (ht : (k (after last v) t).isSome) :
    rest.length ≤ t.length := by
  subst hs
  induction v generalizing min last with
  | nil =>
      have hle := matchRep_length (m := 0)
        (fun last s rest hrest => by rw [hk last s rest hrest, Nat.zero_add]) h
      rw [List.nil_append] at hle
      omega
  | cons c v ih =>
      have hlonger : (matchRep p k (min - 1) none (some c) (v ++ t)).isSome := by
        apply matchRep_isSome (fun d hd => hv d (List.mem_cons_of_mem c hd)) _ (by simp) ht
        rw [List.length_cons] at hmin
        omega
      obtain ⟨rest', hrest'⟩ := Option.isSome_iff_exists.mp hlonger
      have hc : p c ∧ (none : Option ℕ) ≠ some 0 := ⟨hv c List.mem_cons_self, by simp⟩
      rw [List.cons_append, matchRep, if_pos hc, Option.map_none, hrest'] at h
      obtain rfl := Option.some.inj h
      have hmin' : min - 1 ≤ v.length := by
        rw [List.length_cons] at hmin
        omega
      exact ih (fun d hd => hv d (List.mem_cons_of_mem c hd)) hmin' ht hrest'

theorem matchAt_lit (word : String) (r : Pattern) (last : Option Char) (s : List Char) :
    matchAt (lit word ++ r) last (word.toList ++ s) = matchAt r (after last word.toList) s := by
  rw [lit]
  induction word.toList generalizing last with
  | nil => rfl
  | cons c cs ih =>
      have hnext : ∀ (k : Option Char → List Char → Option (List Char)) (s : List Char),
          matchRep (· == c) k 0 (some 0) (some c) s = k (some c) s := by
        intro k s
        cases s with
        | nil => rfl
        | cons d s => simp [matchRep]
      have hc : (c == c) = true ∧ (some 1 : Option ℕ) ≠ some 0 := by simp
      rw [List.map_cons, List.cons_append, List.cons_append, matchAt, matchRep, if_pos hc]
      rw [Option.map_some, hnext, ih, if_neg Nat.one_ne_zero, after_cons]
      cases matchAt r (after (some c) cs) s with
      | none => rfl
      | some rest => rfl

theorem matches_lit {word : String} {rest : List Char} (h : Matches (lit word ++ r) last u rest) :
    ∃ w, u = word.toList ++ w ∧ Matches r (after last word.toList) w rest := by
  have hword : ∀ cs : List Char, ∀ last u,
      Matches ((cs.map fun c => Item.rep (· == c) 1 (some 1)) ++ r) last u rest →
        ∃ w, u = cs ++ w ∧ Matches r (after last cs) w rest := by
    intro cs
    induction cs with
    | nil => exact fun last u h => ⟨u, rfl, h⟩
    | cons c cs ih =>
        rintro last u ⟨d, w, rfl, hd, hmin, hmax, hw⟩
        obtain ⟨e, rfl⟩ := List.length_eq_one_iff.mp (Nat.le_antisymm (hmax 1 rfl) hmin)
        obtain rfl : e = c := eq_of_beq (hd e List.mem_cons_self)
        obtain ⟨w', rfl, hw'⟩ := ih _ w hw
        exact ⟨w', rfl, hw'⟩
  exact hword word.toList last u h

section

variable {word : String} {p isWord : Char → Bool} {min : ℕ}

/-- A word and a run of a class, between boundaries. -/
theorem matches_run {rest : List Char} (h : Matches (framed (some isWord) (lit word ++ [.rep p min none]))
    last u rest) : last.any isWord ≠ (u ++ rest).head?.any isWord ∧
      (after last u).any isWord ≠ rest.head?.any isWord ∧
      ∃ v, u = word.toList ++ v ∧ (∀ c ∈ v, p c) ∧ min ≤ v.length := by
  obtain ⟨hedge, h⟩ := h
  rw [List.append_assoc] at h
  obtain ⟨w, rfl, v, y, rfl, hv, hmin, -, hend, hy⟩ := matches_lit h
  obtain rfl : y = [] := hy
  rw [List.append_nil, after_append]
  exact ⟨by simpa using hedge, hend, v, rfl, hv, hmin⟩

theorem absorbs_run (hword : ∀ c ∈ word.toList, p c) :
    Absorbs (framed (some isWord) (lit word ++ [.rep p min none])) := by
  intro last m rest hm m₁ m₂ v t hsplit hm₂ hrest hv
  by_contra hlong
  obtain ⟨hedge, -, x, rfl, hx, hmin⟩ := matches_run hm.matches
  obtain ⟨-, hend, y, rfl, hy, -⟩ := matches_run hv
  rcases append_split hrest with ⟨w, hw, rfl⟩ | ⟨d, -, rfl, -⟩
  · have hwne : w ≠ [] := by
      rintro rfl
      rw [List.append_nil] at hw
      rw [hw] at hlong
      exact hlong le_rfl
    have hwp : ∀ c ∈ w, p c := by
      intro c hc
      have hmem : c ∈ word.toList ++ y := hw ▸ List.mem_append_right m₂ hc
      exact (List.mem_append.mp hmem).elim (hword c) (hy c)
    -- the run would go on to the end of the other match
    rw [Reported, framed, matchAt, if_pos hedge, List.append_assoc, List.append_assoc, matchAt_lit] at hm
    rw [hw, after_append, after_of_ne_nil hwne _ (after (after last word.toList) x), ← after_append] at hend
    have hle := matchRep_longest (v := x ++ w) ?_ hm (List.append_assoc x w t).symm ?_ ?_ ?_
    · rw [List.length_append] at hle
      exact absurd hle (by have := List.length_pos_iff.mpr hwne; omega)
    · intro last s rest h
      change matchAt [.boundary isWord] last s = some rest at h
      rw [matchAt] at h
      split at h
      · exact (Option.some.inj h).symm
      · cases h
    · exact List.forall_mem_append.mpr ⟨hx, hwp⟩
    · rw [List.length_append]
      omega
    · change (matchAt [.boundary isWord] (after (after last word.toList) (x ++ w)) t).isSome
      rw [matchAt, if_pos hend]
      rfl
  · exact hlong (by simp)

end

/-! ## Covered matches -/

/-- Every match of `q` has a character in common with a match of `r`. -/
def Covered (r q : Pattern) (s : List Char) : Prop :=
  ∀ a u b, s = a ++ (u ++ b) → Matches q (after none a) u b →
    ∃ a₂ u₂ b₂, s = a₂ ++ (u₂ ++ b₂) ∧ Matches r (after none a₂) u₂ b₂ ∧
      a₂.length < a.length + u.length ∧ a.length < a₂.length + u₂.length

theorem Through.absorbed {a t a₂ v b₂ : List Char}
    (h : Through (Unmatched r) (Reported r) last a t) (hr : Absorbs r) (hs : a ++ t = a₂ ++ (v ++ b₂))
    (hv : Matches r (after last a₂) v b₂) (hlt : a₂.length < a.length) :
    a₂.length + v.length ≤ a.length := by
  induction h generalizing a₂ with
  | nil => exact absurd hlt (Nat.not_lt_zero _)
  | keep hunmatched ha ih =>
      cases a₂ with
      | nil => exact absurd hv (hunmatched v b₂ hs)
      | cons d a₂ =>
          rw [List.cons_append, List.cons_append, List.cons.injEq] at hs
          obtain ⟨rfl, hs⟩ := hs
          have hle := ih hs hv (Nat.lt_of_succ_lt_succ hlt)
          simp only [List.length_cons]
          omega
  | @replace last m a t hreported ha ih =>
      rw [List.append_assoc] at hs
      rcases append_split hs with ⟨a₃, rfl, hs'⟩ | ⟨m₂, hm₂, rfl, hs'⟩
      · rw [after_append] at hv
        rw [List.length_append, List.length_append] at hlt
        have hle := ih hs' hv (by omega)
        simp only [List.length_append]
        omega
      · have hle := hr _ _ _ hreported a₂ m₂ v b₂ rfl hm₂ hs' hv
        simp only [List.length_append]
        omega

section

variable {stays : Option Char → List Char → Prop} {piece : Option Char → List Char → List Char → Prop}
  {repl s s' b : List Char}

theorem Rewritten.prefix_survives (h : Rewritten stays piece repl last s s') (hs : s = u ++ b)
    (hfree : ∀ a₂ m b₂, s = a₂ ++ (m ++ b₂) → m ≠ [] → piece (after last a₂) m b₂ →
      u.length ≤ a₂.length) : ∃ b', s' = u ++ b' := by
  induction u generalizing last s s' with
  | nil => exact ⟨s', rfl⟩
  | cons c u ih =>
      cases h with
      | nil => cases hs
      | @keep _ d s s' _ hrest =>
          rw [List.cons_append, List.cons.injEq] at hs
          obtain ⟨rfl, hs⟩ := hs
          obtain ⟨b', rfl⟩ := ih hrest hs fun a₂ m b₂ hsplit hm hpiece => by
            have hle := hfree (d :: a₂) m b₂ (by rw [hsplit, List.cons_append]) hm hpiece
            exact Nat.le_of_succ_le_succ hle
          exact ⟨b', rfl⟩
      | @replace _ m s s' hm hpiece _ =>
          have hle := hfree [] m s rfl hm hpiece
          exact absurd hle (by simp)

/-- A stretch that no replaced piece has a character of is still there. -/
theorem Rewritten.survives {a : List Char} (h : Rewritten stays piece repl last s s')
    (hs : s = a ++ (u ++ b)) (hu : u ≠ [])
    (hfree : ∀ a₂ m b₂, s = a₂ ++ (m ++ b₂) → m ≠ [] → piece (after last a₂) m b₂ →
      ¬(a₂.length < a.length + u.length ∧ a.length < a₂.length + m.length)) :
    ∃ a' b', s' = a' ++ (u ++ b') := by
  have hpos : 0 < u.length := List.length_pos_iff.mpr hu
  induction h generalizing a with
  | nil => exact absurd (List.append_eq_nil_iff.mp (List.append_eq_nil_iff.mp hs.symm).2).1 hu
  | @keep last c s s' hstays hrest ih =>
      cases a with
      | nil =>
          have hwhole : Rewritten stays piece repl last (c :: s) (c :: s') := .keep hstays hrest
          have hs : c :: s = u ++ b := hs
          obtain ⟨b', hb'⟩ := hwhole.prefix_survives hs fun a₂ m b₂ hsplit hm hpiece => by
            have hapart := hfree a₂ m b₂ hsplit hm hpiece
            have hmpos : 0 < m.length := List.length_pos_iff.mpr hm
            simp only [List.length_nil] at hapart
            omega
          exact ⟨[], b', hb'⟩
      | cons d a =>
          rw [List.cons_append, List.cons.injEq] at hs
          obtain ⟨rfl, hs⟩ := hs
          obtain ⟨a', b', rfl⟩ := ih hs fun a₂ m b₂ hsplit hm hpiece => by
            have hapart := hfree (c :: a₂) m b₂ (by rw [hsplit, List.cons_append]) hm hpiece
            simp only [List.length_cons] at hapart
            omega
          exact ⟨c :: a', b', rfl⟩
  | @replace last m s s' hm hpiece hrest ih =>
      have hapart := hfree [] m s rfl hm hpiece
      rcases append_split hs with ⟨a₃, rfl, hs'⟩ | ⟨e, he, rfl, hs'⟩
      · obtain ⟨a', b', rfl⟩ := ih hs' fun a₂ m' b₂ hsplit hm' hpiece' => by
          have hlater := hfree (m ++ a₂) m' b₂ (by rw [hsplit, List.append_assoc]) hm'
            (by rwa [after_append])
          simp only [List.length_append] at hlater
          omega
        exact ⟨repl ++ a', b', by rw [List.append_assoc]⟩
      · have hepos : 0 < e.length := List.length_pos_iff.mpr he
        simp only [List.length_nil, List.length_append] at hapart
        omega

end

section

variable {repl text : String} {q : Pattern}

/-- A substitution leaves no match of a pattern without boundaries exactly when the substituted one
covers all of its matches. -/
theorem search_sub_eq_false_iff (hq : Enclosed repl none q) (hr : Absorbs r) (hpos : 0 < minLength r) :
    search q (sub r repl text) = false ↔ Covered r q text.toList := by
  constructor
  · intro h a u b hs hu
    by_contra hnot
    obtain ⟨body, rfl, hbody⟩ := hq.framed
    obtain ⟨a', b', hs'⟩ := (substituted_subFrom hpos repl.toList none _).survives hs
      (hq.blocks.ne_nil_of_matches hu)
      fun a₂ m b₂ hsplit _ hm hoverlap => hnot ⟨a₂, m, b₂, hsplit, hm.matches, hoverlap⟩
    rw [search_eq_false, sub, String.toList_ofList, hs'] at h
    exact h ⟨a', u, b', rfl, hu.anywhere hbody _ _⟩
  · intro hcovered
    rw [search_eq_false]
    rintro ⟨a', u, b', hs', hu'⟩
    obtain ⟨a, b, hs, hu, hthrough, hstays⟩ := hq.occurrence_sub (sided_none r) hpos hs' hu'
    obtain ⟨a₂, u₂, b₂, hs₂, hu₂, hbefore, hafter⟩ := hcovered a u b hs hu
    rw [hs] at hs₂
    rcases append_split hs₂ with ⟨a₃, rfl, hs₃⟩ | ⟨d, hd, rfl, hs₃⟩
    · -- the match begins in the stretch that stays
      rw [List.length_append] at hbefore
      rcases append_split hs₃ with ⟨a₄, rfl, -⟩ | ⟨d, hd, rfl, hs₄⟩
      · rw [List.length_append] at hbefore
        omega
      · rw [after_append] at hu₂
        exact hstays a₃ d rfl hd u₂ b₂ hs₄ hu₂
    · -- the match begins before it, and does not get to it
      have hle := hthrough.absorbed hr hs₂ hu₂ (by
        have hdpos : 0 < d.length := List.length_pos_iff.mpr hd
        rw [List.length_append]
        omega)
      omega

end

end Regex
