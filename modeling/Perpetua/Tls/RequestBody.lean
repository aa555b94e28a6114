import Perpetua.Lib.PyBytes

/-!
# Request bodies

The model of `_read_request_body` of the proxy's handler in `orchestrator/alphaclaw_tls_proxy.py`, and
the framing of a body as HTTP has it. A header is what `headers.get` gives, a text of the bytes'
characters; the stream is what the client sends before it closes.
-/

namespace Perpetua.Tls

open PyBytes

/-! ## Reading -/

/-- `_MAX_BODY_SIZE`. -/
def maxBodySize : ℕ := 100 * 1024 * 1024

inductive BodyError
  /-- `ValueError`: malformed framing. -/
  | valueError
  /-- `OSError`: the stream is too short. -/
  | osError
  deriving DecidableEq

/-- The size on a chunk-size line: the number before the first semicolon. -/
def chunkSize (line : Bytes) : Option ℤ := int16 ((strip line).takeWhile (· ≠ semicolon))

/-- The loop over the chunks, with the sizes read so far. -/
def readChunks (total : ℕ) (stream : Bytes) : Except BodyError (Bytes × Bytes) :=
  let line := (readline stream).1
  let stream' := (readline stream).2
  if line = [] then .error .osError
  else if strip line = [] then .error .valueError
  else
    match chunkSize line with
    | none => .error .valueError
    | some size =>
        if size < 0 then .error .valueError
        else if size = 0 then .ok ([], (readline stream').2)
        else if maxBodySize < total + size.toNat then .error .valueError
        else if (stream'.take size.toNat).length ≠ size.toNat then .error .osError
        else
          match readChunks (total + size.toNat) (readline (stream'.drop size.toNat)).2 with
          | .error e => .error e
          | .ok (body, rest) => .ok (stream'.take size.toNat ++ body, rest)
termination_by stream.length
decreasing_by
  have hread := readline_rest_length stream ‹¬(readline stream).1 = []›
  have hrest := readline_rest_le ((readline stream).2.drop size.toNat)
  rw [List.length_drop] at hrest
  omega

def crlf : Bytes := [carriageReturn, lineFeed]

/-- A chunk extension, or none. -/
def IsExtension (bs : Bytes) : Prop :=
  bs = [] ∨ ∃ text, bs = semicolon :: text ∧ carriageReturn ∉ text ∧ lineFeed ∉ text

/-- A stream that begins with a chunked body, the bytes of the body, and what follows it. -/
inductive Chunked : Bytes → Bytes → Bytes → Prop
  | last {digits extension rest : Bytes} (hdigits : HexDigits digits) (hsize : hexValue digits = 0)
      (hextension : IsExtension extension) :
      Chunked (digits ++ extension ++ crlf ++ (crlf ++ rest)) [] rest
  | chunk {digits extension data stream body rest : Bytes} (hdigits : HexDigits digits)
      (hsize : hexValue digits = data.length) (hdata : data ≠ []) (hextension : IsExtension extension)
      (h : Chunked stream body rest) :
      Chunked (digits ++ extension ++ crlf ++ (data ++ (crlf ++ stream))) (data ++ body) rest

/-- One or more decimal digits. -/
def DecimalDigits (s : String) : Prop := s ≠ "" ∧ ∀ c ∈ s.toList, c.isDigit

/-- The size line of a chunk, and what stands behind its data up to the next line feed. -/
structure Frame where
  sizeLine : Bytes
  lineEnd : Bytes

/-- A chunked body as loosely framed as the handler takes it, frame by frame: a size as `int` reads it,
any line behind the data of a chunk and behind the last size, and a stream that ends with a line
instead. -/
inductive Loose : List Frame → Bytes → Bytes → Bytes → Prop
  | last {line tail rest : Bytes} (hline : EndsLine line (tail ++ rest))
      (hsize : chunkSize line = some 0) (htail : EndsLine tail rest) :
      Loose [⟨line, tail⟩] (line ++ (tail ++ rest)) [] rest
  | chunk {frames : List Frame} {line data tail stream body rest : Bytes}
      (hline : EndsLine line (data ++ (tail ++ stream)))
      (hsize : chunkSize line = some (data.length : ℤ)) (hdata : data ≠ [])
      (htail : EndsLine tail stream) (h : Loose frames stream body rest) :
      Loose (⟨line, tail⟩ :: frames) (line ++ (data ++ (tail ++ stream))) (data ++ body) rest

/-! ## Malformed framings -/

end Perpetua.Tls
