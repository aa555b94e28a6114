import Perpetua.Grant.Verify
import Perpetua.Lib.Except
import Perpetua.Lib.Occurrences

/-!
# Merged bodies

The model of `build_merged_body` in `scripts/cursor/append-pr-body.sh`: a follow-up goes before the end
marker of Cursor, else before the marker of CodeRabbit, else to the end of the body.
-/

namespace Perpetua.Grant

open Occurrences

def lineFeed : BitVec 8 := 0x0A

def lessThan : BitVec 8 := 0x3C

/-- `CURSOR_BODY_END`. -/
def cursorBodyEnd : Bytes := Sha256.utf8 "<!-- CURSOR_AGENT_PR_BODY_END -->"

/-- `CODERABBIT_MARKER`. -/
def coderabbitMarker : Bytes :=
  Sha256.utf8 "<!-- This is an auto-generated comment: release notes by coderabbit.ai -->"

/-- What `gh pr view` prints, without the line feed that it puts behind the body. -/
def withoutPresentation (error : String) (output : Bytes) : Except String Bytes :=
  if output.getLast? = some lineFeed then .ok output.dropLast else .error error

/-- What is appended. -/
structure FollowUp where
  title : String
  block : Bytes

/-- The section that is inserted: `\n\n## `, the title, `\n\n` and the block. -/
def FollowUp.text (f : FollowUp) : Bytes :=
  [lineFeed, lineFeed, 0x23, 0x23, 0x20] ++ Sha256.utf8 f.title ++ [lineFeed, lineFeed] ++ f.block

/-- `build_merged_body` behind the check of the output. -/
def mergedBody (body : Bytes) (f : FollowUp) : Except String Bytes :=
  if contains cursorBodyEnd f.block || contains coderabbitMarker f.block then
    .error "append content must not contain reserved PR body delimiters"
  else if 1 < count cursorBodyEnd body then
    .error "PR body contains multiple CURSOR_AGENT_PR_BODY_END markers; manual repair required"
  else if 1 < count coderabbitMarker body then
    .error "PR body contains multiple CodeRabbit markers; manual repair required"
  else if contains cursorBodyEnd body then
    .ok (replaceFirst cursorBodyEnd (f.text ++ [lineFeed] ++ cursorBodyEnd) body)
  else if contains coderabbitMarker body then
    .ok (replaceFirst coderabbitMarker (f.text ++ [lineFeed, lineFeed] ++ coderabbitMarker) body)
  else .ok (body ++ f.text)

/-- `build_merged_body`, on what `gh pr view` has printed. -/
def buildMergedBody (remote : Bytes) (f : FollowUp) : Except String Bytes := do
  mergedBody
    (← withoutPresentation "gh pr view output lacked its expected presentation newline" remote) f

/-- The body after follow-ups, each appended to the body that the one before it has left. -/
def appendAll (body : Bytes) (fs : List FollowUp) : Except String Bytes :=
  fs.foldlM (fun body f => buildMergedBody (body ++ [lineFeed]) f) body

/-! ## Markers -/

/-- A comment of HTML on one line. -/
structure IsMarker (m : Bytes) : Prop where
  head : m.head? = some lessThan
  tail : lessThan ∉ m.tail
  line : lineFeed ∉ m

theorem cursorBodyEnd_isMarker : IsMarker cursorBodyEnd :=
  ⟨by decide +kernel, by decide +kernel, by decide +kernel⟩

theorem coderabbitMarker_isMarker : IsMarker coderabbitMarker :=
  ⟨by decide +kernel, by decide +kernel, by decide +kernel⟩

variable {m m' a b body out : Bytes}

theorem IsMarker.ne_nil (h : IsMarker m) : m ≠ [] := by
  rintro rfl
  cases h.head

/-- No marker ends within the text from a marker on, unless it begins there. -/
theorem IsMarker.apart (h : IsMarker m) (h' : IsMarker m') : Apart m (m' ++ b) := by
  obtain ⟨c, t, rfl⟩ := List.exists_cons_of_ne_nil h'.ne_nil
  obtain rfl := Option.some.inj h'.head
  exact apart_cons h.tail

theorem IsMarker.count_text (h : IsMarker m) (f : FollowUp) :
    count m (a ++ (f.text ++ b)) =
      count m a + (count m (Sha256.utf8 f.title) + count m (f.block ++ b)) := by
  have hhash : ∀ s, count m (0x23 :: s) = count m s :=
    fun s => count_cons_of_ne 0x23 (by rw [h.head]; decide) h.ne_nil
  have hspace : ∀ s, count m (0x20 :: s) = count m s :=
    fun s => count_cons_of_ne 0x20 (by rw [h.head]; decide) h.ne_nil
  have hline : ∀ s, count m (lineFeed :: s) = count m s :=
    fun s => (count_append_cons (a := []) h.line h.ne_nil).trans (Nat.zero_add _)
  have htext : f.text ++ b = lineFeed :: lineFeed :: 0x23 :: 0x23 :: 0x20 ::
      (Sha256.utf8 f.title ++ lineFeed :: lineFeed :: (f.block ++ b)) := by
    simp [FollowUp.text]
  rw [htext, count_append_cons h.line h.ne_nil, hline, hhash, hhash, hspace,
    count_append_cons h.line h.ne_nil, hline]

/-! ## Where follow-ups go -/

/-- What stands before the follow-ups and behind them, and the line feeds behind each of them. -/
structure Place where
  before : Bytes
  gap : Bytes
  after : Bytes

/-- The place that a body has for follow-ups. -/
def place (body : Bytes) : Place :=
  match cut cursorBodyEnd body with
  | some (a, b) => ⟨a, [lineFeed], cursorBodyEnd ++ b⟩
  | none =>
      match cut coderabbitMarker body with
      | some (a, b) => ⟨a, [lineFeed, lineFeed], coderabbitMarker ++ b⟩
      | none => ⟨body, [], []⟩

/-- The body with follow-ups at its place. -/
def Place.filled (p : Place) (fs : List FollowUp) : Bytes :=
  p.before ++ (fs.flatMap (fun f => f.text ++ p.gap) ++ p.after)

theorem place_cursor (h : cut cursorBodyEnd body = some (a, b)) :
    place body = ⟨a, [lineFeed], cursorBodyEnd ++ b⟩ := by
  rw [place, h]

theorem place_coderabbit (h : cut cursorBodyEnd body = none)
    (h' : cut coderabbitMarker body = some (a, b)) :
    place body = ⟨a, [lineFeed, lineFeed], coderabbitMarker ++ b⟩ := by
  rw [place, h, h']

theorem place_end (h : cut cursorBodyEnd body = none) (h' : cut coderabbitMarker body = none) :
    place body = ⟨body, [], []⟩ := by
  rw [place, h, h']

/-- Nothing of the body is lost around the place. -/
theorem place_body (body : Bytes) : (place body).before ++ (place body).after = body := by
  cases hcut : cut cursorBodyEnd body with
  | some parts =>
      rw [place_cursor hcut]
      exact (eq_of_cut hcut).symm
  | none =>
      cases hcut' : cut coderabbitMarker body with
      | some parts =>
          rw [place_coderabbit hcut hcut']
          exact (eq_of_cut hcut').symm
      | none =>
          rw [place_end hcut hcut']
          exact List.append_nil body

/-- A body without the duplicates that need a repair. -/
structure Mergeable (body : Bytes) : Prop where
  cursor : count cursorBodyEnd body ≤ 1
  coderabbit : count coderabbitMarker body ≤ 1

/-- No marker is in the text. -/
structure Plain (text : Bytes) : Prop where
  cursor : count cursorBodyEnd text = 0
  coderabbit : count coderabbitMarker text = 0

theorem mergedBody_ok_iff {f : FollowUp} : mergedBody body f = .ok out ↔
    Plain f.block ∧ Mergeable body ∧
      out = (place body).before ++ (f.text ++ ((place body).gap ++ (place body).after)) := by
  have hne : ∀ e : String, (.error e : Except String Bytes) ≠ .ok out := fun e h => by cases h
  unfold mergedBody
  by_cases hblock : Plain f.block
  · have hc := contains_eq_false_iff.mpr hblock.cursor
    have hr := contains_eq_false_iff.mpr hblock.coderabbit
    rw [hc, hr, if_neg (by decide)]
    by_cases hcursor : 1 < count cursorBodyEnd body
    · rw [if_pos hcursor]
      exact iff_of_false (hne _) fun h => absurd h.2.1.cursor (by omega)
    rw [if_neg hcursor]
    by_cases hcoderabbit : 1 < count coderabbitMarker body
    · rw [if_pos hcoderabbit]
      exact iff_of_false (hne _) fun h => absurd h.2.1.coderabbit (by omega)
    rw [if_neg hcoderabbit]
    have hbody : Mergeable body := ⟨by omega, by omega⟩
    rw [contains, contains, replaceFirst, replaceFirst]
    cases hcut : cut cursorBodyEnd body with
    | some parts => simp [hblock, hbody, place_cursor hcut, eq_comm]
    | none =>
        cases hcut' : cut coderabbitMarker body with
        | some parts => simp [hblock, hbody, place_coderabbit hcut hcut', eq_comm]
        | none => simp [hblock, hbody, place_end hcut hcut', eq_comm]
  · have hmarked : (contains cursorBodyEnd f.block || contains coderabbitMarker f.block) = true := by
      by_contra hnot
      rw [Bool.or_eq_true, not_or, Bool.not_eq_true, Bool.not_eq_true, contains_eq_false_iff,
        contains_eq_false_iff] at hnot
      exact hblock ⟨hnot.1, hnot.2⟩
    rw [if_pos hmarked]
    exact iff_of_false (hne _) fun h => hblock h.1

/-! ## One follow-up after another -/

theorem IsMarker.count_lineFeed (h : IsMarker m) :
    count m (a ++ lineFeed :: b) = count m a + count m b :=
  count_append_cons h.line h.ne_nil

theorem withoutPresentation_printed (error : String) (body : Bytes) :
    withoutPresentation error (body ++ [lineFeed]) = .ok body := by
  rw [withoutPresentation, List.getLast?_concat, if_pos rfl, List.dropLast_concat]

theorem buildMergedBody_printed (body : Bytes) (f : FollowUp) :
    buildMergedBody (body ++ [lineFeed]) f = mergedBody body f := by
  rw [buildMergedBody, withoutPresentation_printed]
  rfl

theorem count_printed (h : IsMarker m) (body : Bytes) (f : FollowUp) :
    count m ((place body).before ++ (f.text ++ ((place body).gap ++ (place body).after))) =
      count m body + (count m (Sha256.utf8 f.title) + count m f.block) := by
  have hsplit := place_body body
  cases hcut : cut cursorBodyEnd body with
  | some parts =>
      rw [place_cursor hcut] at hsplit ⊢
      dsimp only at hsplit ⊢
      rw [h.count_text, List.singleton_append, h.count_lineFeed, ← hsplit,
        count_append (h.apart cursorBodyEnd_isMarker)]
      omega
  | none =>
      cases hcut' : cut coderabbitMarker body with
      | some parts =>
          rw [place_coderabbit hcut hcut'] at hsplit ⊢
          dsimp only at hsplit ⊢
          rw [h.count_text, List.cons_append, List.singleton_append, h.count_lineFeed,
            ← List.nil_append (lineFeed :: _), h.count_lineFeed, ← hsplit,
            count_append (h.apart coderabbitMarker_isMarker)]
          have hnil : count m [] = 0 := rfl
          omega
      | none =>
          rw [place_end hcut hcut']
          dsimp only
          rw [h.count_text, List.append_nil, List.append_nil]

/-- The follow-up is in front of the place that it has left for the next one. -/
theorem place_merged {f : FollowUp} (htitle : Plain (Sha256.utf8 f.title)) (hblock : Plain f.block) :
    place ((place body).before ++ (f.text ++ ((place body).gap ++ (place body).after))) =
      ⟨(place body).before ++ (f.text ++ (place body).gap), (place body).gap, (place body).after⟩ := by
  have hcount := fun m (h : IsMarker m) => count_printed h body f
  cases hcut : cut cursorBodyEnd body with
  | some parts =>
      rw [place_cursor hcut]
      dsimp only
      have hbefore : count cursorBodyEnd (parts.1 ++ (f.text ++ [lineFeed])) = 0 := by
        rw [cursorBodyEnd_isMarker.count_text, cursorBodyEnd_isMarker.count_lineFeed,
          count_of_cut hcut, htitle.cursor, hblock.cursor]
        rfl
      have hsplit : parts.1 ++ (f.text ++ ([lineFeed] ++ (cursorBodyEnd ++ parts.2))) =
          (parts.1 ++ (f.text ++ [lineFeed])) ++ (cursorBodyEnd ++ parts.2) := by
        simp only [List.append_assoc]
      rw [hsplit]
      exact place_cursor (cut_append cursorBodyEnd_isMarker.ne_nil
        (cursorBodyEnd_isMarker.apart cursorBodyEnd_isMarker) hbefore)
  | none =>
      have hcursor := hcount cursorBodyEnd cursorBodyEnd_isMarker
      rw [cut_eq_none_iff.mp hcut, htitle.cursor, hblock.cursor] at hcursor
      have hcut₁ := cut_eq_none_iff.mpr hcursor
      cases hcut' : cut coderabbitMarker body with
      | some parts =>
          rw [place_coderabbit hcut hcut'] at hcut₁ ⊢
          dsimp only at hcut₁ ⊢
          have hbefore : count coderabbitMarker (parts.1 ++ (f.text ++ [lineFeed, lineFeed])) = 0 := by
            rw [coderabbitMarker_isMarker.count_text, coderabbitMarker_isMarker.count_lineFeed,
              count_of_cut hcut', htitle.coderabbit, hblock.coderabbit,
              ← List.nil_append [lineFeed], coderabbitMarker_isMarker.count_lineFeed]
            rfl
          have hsplit : parts.1 ++ (f.text ++ ([lineFeed, lineFeed] ++ (coderabbitMarker ++ parts.2))) =
              (parts.1 ++ (f.text ++ [lineFeed, lineFeed])) ++ (coderabbitMarker ++ parts.2) := by
            simp only [List.append_assoc]
          rw [hsplit] at hcut₁ ⊢
          exact place_coderabbit hcut₁ (cut_append coderabbitMarker_isMarker.ne_nil
            (coderabbitMarker_isMarker.apart coderabbitMarker_isMarker) hbefore)
      | none =>
          have hcoderabbit := hcount coderabbitMarker coderabbitMarker_isMarker
          rw [cut_eq_none_iff.mp hcut', htitle.coderabbit, hblock.coderabbit] at hcoderabbit
          rw [place_end hcut₁ (cut_eq_none_iff.mpr hcoderabbit), place_end hcut hcut']
          simp only [List.append_nil]

theorem mergeable_merged {f : FollowUp} (htitle : Plain (Sha256.utf8 f.title)) (hblock : Plain f.block) :
    Mergeable ((place body).before ++ (f.text ++ ((place body).gap ++ (place body).after))) ↔
      Mergeable body := by
  have hcursor := count_printed cursorBodyEnd_isMarker body f
  have hcoderabbit := count_printed coderabbitMarker_isMarker body f
  rw [htitle.cursor, hblock.cursor] at hcursor
  rw [htitle.coderabbit, hblock.coderabbit] at hcoderabbit
  constructor
  · exact fun h => ⟨hcursor.ge.trans h.cursor, hcoderabbit.ge.trans h.coderabbit⟩
  · exact fun h => ⟨hcursor.le.trans h.cursor, hcoderabbit.le.trans h.coderabbit⟩

theorem filled_merged {f : FollowUp} {fs : List FollowUp} (htitle : Plain (Sha256.utf8 f.title))
    (hblock : Plain f.block) :
    (place ((place body).before ++ (f.text ++ ((place body).gap ++ (place body).after)))).filled fs =
      (place body).filled (f :: fs) := by
  rw [place_merged htitle hblock]
  simp only [Place.filled, List.flatMap_cons, List.append_assoc]

theorem appendAll_cons (f : FollowUp) (fs : List FollowUp) :
    appendAll body (f :: fs) = .ok out ↔
      ∃ mid, mergedBody body f = .ok mid ∧ appendAll mid fs = .ok out := by
  rw [appendAll, List.foldlM_cons, buildMergedBody_printed, Except.bind_eq_ok]
  rfl

/-- Follow-ups are appended whatever follow-ups came before: each goes behind those at the place of the
first body, of which nothing is lost. Only a marker in a block, or a second one in the first body, is
refused. -/
theorem appendAll_integrative {fs : List FollowUp} (htitles : ∀ f ∈ fs, Plain (Sha256.utf8 f.title))
    (body : Bytes) :
    (place body).before ++ (place body).after = body ∧
      ∀ out, appendAll body fs = .ok out ↔
        (fs = [] ∨ Mergeable body) ∧ (∀ f ∈ fs, Plain f.block) ∧ out = (place body).filled fs := by
  refine ⟨place_body body, ?_⟩
  induction fs generalizing body with
  | nil =>
      intro out
      have hfilled : (place body).filled [] = body := place_body body
      rw [hfilled]
      constructor
      · intro h
        cases h
        exact ⟨.inl rfl, fun f hf => absurd hf List.not_mem_nil, rfl⟩
      · rintro ⟨-, -, rfl⟩
        rfl
  | cons f fs ih =>
      intro out
      have htitle := htitles f List.mem_cons_self
      have hrest := ih fun g hg => htitles g (List.mem_cons_of_mem f hg)
      rw [appendAll_cons]
      constructor
      · rintro ⟨mid, hmid, hout⟩
        obtain ⟨hblock, hbody, rfl⟩ := mergedBody_ok_iff.mp hmid
        obtain ⟨-, hblocks, hfilled⟩ := (hrest _ out).mp hout
        rw [filled_merged htitle hblock] at hfilled
        exact ⟨.inr hbody, List.forall_mem_cons.mpr ⟨hblock, hblocks⟩, hfilled⟩
      · rintro ⟨hbody, hblocks, rfl⟩
        obtain ⟨hblock, hblocks⟩ := List.forall_mem_cons.mp hblocks
        have hbody := hbody.resolve_left (List.cons_ne_nil f fs)
        have hmid := (mergeable_merged htitle hblock).mpr hbody
        exact ⟨_, mergedBody_ok_iff.mpr ⟨hblock, hbody, rfl⟩, (hrest _ _).mpr
          ⟨.inr hmid, hblocks, (filled_merged htitle hblock).symm⟩⟩

section SampleAppend

def sampleBody : Bytes := Sha256.utf8 "Summary\n" ++ cursorBodyEnd

def sampleFollowUps : List FollowUp :=
  [⟨"Follow-up: one", Sha256.utf8 "a"⟩,
    ⟨"Follow-up: two", Sha256.utf8 "b"⟩]

instance plainDecidable (text : Bytes) : Decidable (Plain text) :=
  decidable_of_iff (count cursorBodyEnd text = 0 ∧ count coderabbitMarker text = 0)
    ⟨fun h => ⟨h.1, h.2⟩, fun h => ⟨h.cursor, h.coderabbit⟩⟩

/-- Both go before the end marker, in their order. -/
theorem appendAll_sampleBody :
    appendAll sampleBody sampleFollowUps =
      .ok (Sha256.utf8 "Summary\n\n\n## Follow-up: one\n\na\n\n\n## Follow-up: two\n\nb\n" ++
        cursorBodyEnd) :=
  ((appendAll_integrative (show ∀ f ∈ sampleFollowUps, Plain (Sha256.utf8 f.title) by decide +kernel)
    sampleBody).2 _).mpr
      ⟨.inr ⟨by decide +kernel, by decide +kernel⟩, by decide +kernel, by decide +kernel⟩

end SampleAppend

end Perpetua.Grant
