import Perpetua.Tls.RequestBody

/-!
# What the handler takes as a body

The handler reads exactly the loosely framed bodies, and well-formed bodies are among them.
-/

namespace Perpetua.Tls

open PyBytes

/-! ## Chunk sizes -/

theorem chunkSize_of_strip_eq_nil {line : Bytes} (h : strip line = []) : chunkSize line = none := by
  rw [chunkSize, h]
  rfl

theorem strip_ne_nil {line : Bytes} {size : ℤ} (h : chunkSize line = some size) : strip line ≠ [] := by
  intro hstrip
  rw [chunkSize_of_strip_eq_nil hstrip] at h
  cases h

theorem ne_nil_of_chunkSize {line : Bytes} {size : ℤ} (h : chunkSize line = some size) :
    line ≠ [] := by
  rintro rfl
  exact strip_ne_nil h rfl

theorem IsExtension.head {extension : Bytes} (h : IsExtension extension) :
    extension = [] ∨ extension.head? = some semicolon := by
  rcases h with rfl | ⟨text, rfl, -, -⟩
  · exact .inl rfl
  · exact .inr rfl

theorem Loose.readChunks {total : ℕ} {frames : List Frame} {stream body rest : Bytes}
    (h : Loose frames stream body rest) (htotal : total + body.length ≤ maxBodySize) :
    readChunks total stream = .ok (body, rest) := by
  induction h generalizing total with
  | last hline hsize htail =>
      rw [Tls.readChunks]
      simp only [readline_of_endsLine hline, readline_of_endsLine htail]
      rw [if_neg (ne_nil_of_chunkSize hsize), if_neg (strip_ne_nil hsize), hsize]
      rfl
  | @chunk frames line data tail stream body rest hline hsize hdata htail _ ih =>
      have hpos : 0 < data.length := List.length_pos_of_ne_nil hdata
      rw [List.length_append, ← Nat.add_assoc] at htotal
      rw [Tls.readChunks]
      simp only [readline_of_endsLine hline]
      rw [if_neg (ne_nil_of_chunkSize hsize), if_neg (strip_ne_nil hsize), hsize]
      simp only [Int.toNat_natCast, List.take_left, List.drop_left, readline_of_endsLine htail,
        ih htotal]
      rw [if_neg (by omega), if_neg (by omega), if_neg (by omega), if_neg (by simp)]

/-- There is no mark among plain digits. -/
theorem DecimalDigits.unmarked {s : String} (h : DecimalDigits s) :
    ∀ c ∈ s.toList, ¬ PyNumber.Mark c := by
  rintro c hc (rfl | rfl | rfl | hspace)
  · exact absurd (h.2 _ hc) (by decide)
  · exact absurd (h.2 _ hc) (by decide)
  · exact absurd (h.2 _ hc) (by decide)
  · have halnum := PyText.isAlphanum_iff.mpr (.inr (PyText.isDigit_iff.mp (h.2 c hc)))
    rw [PyText.isSpace_of_isAlphanum halnum] at hspace
    cases hspace

variable {transferEncoding contentLength : Option String} {stream body rest : Bytes}

theorem Chunked.head {stream body rest : Bytes} (h : Chunked stream body rest) :
    ∃ b ∈ stream.head?, (hexDigit? b).isSome := by
  cases h with
  | @last digits _ _ hdigits _ _ =>
      cases digits with
      | nil => exact absurd rfl hdigits.nonempty
      | cons b digits => exact ⟨b, rfl, hdigits.digits b List.mem_cons_self⟩
  | @chunk digits _ _ _ _ _ hdigits _ _ _ _ =>
      cases digits with
      | nil => exact absurd rfl hdigits.nonempty
      | cons b digits => exact ⟨b, rfl, hdigits.digits b List.mem_cons_self⟩

end Perpetua.Tls
