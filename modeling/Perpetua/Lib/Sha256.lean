import Mathlib.Data.List.Basic

/-!
# SHA-256

`hashlib.sha256` on lists of bytes, and its `hexdigest`.
-/

namespace Sha256

abbrev Word := BitVec 32

def initialHash : List Word :=
  [0x6a09e667, 0xbb67ae85, 0x3c6ef372, 0xa54ff53a, 0x510e527f, 0x9b05688c, 0x1f83d9ab, 0x5be0cd19]

def roundConstants : List Word :=
  [0x428a2f98, 0x71374491, 0xb5c0fbcf, 0xe9b5dba5, 0x3956c25b, 0x59f111f1, 0x923f82a4, 0xab1c5ed5,
    0xd807aa98, 0x12835b01, 0x243185be, 0x550c7dc3, 0x72be5d74, 0x80deb1fe, 0x9bdc06a7, 0xc19bf174,
    0xe49b69c1, 0xefbe4786, 0x0fc19dc6, 0x240ca1cc, 0x2de92c6f, 0x4a7484aa, 0x5cb0a9dc, 0x76f988da,
    0x983e5152, 0xa831c66d, 0xb00327c8, 0xbf597fc7, 0xc6e00bf3, 0xd5a79147, 0x06ca6351, 0x14292967,
    0x27b70a85, 0x2e1b2138, 0x4d2c6dfc, 0x53380d13, 0x650a7354, 0x766a0abb, 0x81c2c92e, 0x92722c85,
    0xa2bfe8a1, 0xa81a664b, 0xc24b8b70, 0xc76c51a3, 0xd192e819, 0xd6990624, 0xf40e3585, 0x106aa070,
    0x19a4c116, 0x1e376c08, 0x2748774c, 0x34b0bcb5, 0x391c0cb3, 0x4ed8aa4a, 0x5b9cca4f, 0x682e6ff3,
    0x748f82ee, 0x78a5636f, 0x84c87814, 0x8cc70208, 0x90befffa, 0xa4506ceb, 0xbef9a3f7, 0xc67178f2]

/-- The message, a one bit, zeros, and the length in bits as eight bytes. -/
def pad (message : List (BitVec 8)) : List (BitVec 8) :=
  let zeros := (119 - message.length % 64) % 64
  let bits : BitVec 64 := BitVec.ofNat 64 (8 * message.length)
  message ++ 0x80 :: List.replicate zeros 0 ++
    [56, 48, 40, 32, 24, 16, 8, 0].map fun k => (bits >>> k).setWidth 8

/-- The 32-bit words of a list of bytes. -/
def words : List (BitVec 8) → List Word
  | a :: b :: c :: d :: rest => (a ++ b ++ c ++ d) :: words rest
  | _ => []

/-- The next word of the message schedule, from the last sixteen, newest first. -/
def nextWord (recent : List Word) : Word :=
  let w2 := recent.getD 1 0
  let w7 := recent.getD 6 0
  let w15 := recent.getD 14 0
  let w16 := recent.getD 15 0
  let s0 := w15.rotateRight 7 ^^^ w15.rotateRight 18 ^^^ w15 >>> 3
  let s1 := w2.rotateRight 17 ^^^ w2.rotateRight 19 ^^^ w2 >>> 10
  w16 + s0 + w7 + s1

/-- The words of a block, and the schedule words after them, newest first. -/
def extend : ℕ → List Word → List Word
  | 0, ws => ws
  | n + 1, ws => extend n (nextWord ws :: ws)

def schedule (block : List Word) : List Word := (extend 48 block.reverse).reverse

structure State where
  a : Word
  b : Word
  c : Word
  d : Word
  e : Word
  f : Word
  g : Word
  h : Word

def State.round (s : State) (k w : Word) : State :=
  let s1 := s.e.rotateRight 6 ^^^ s.e.rotateRight 11 ^^^ s.e.rotateRight 25
  let ch := (s.e &&& s.f) ^^^ (~~~s.e &&& s.g)
  let t1 := s.h + s1 + ch + k + w
  let s0 := s.a.rotateRight 2 ^^^ s.a.rotateRight 13 ^^^ s.a.rotateRight 22
  let maj := (s.a &&& s.b) ^^^ (s.a &&& s.c) ^^^ (s.b &&& s.c)
  { a := t1 + (s0 + maj), b := s.a, c := s.b, d := s.c, e := s.d + t1, f := s.e, g := s.f, h := s.g }

def State.ofWords (ws : List Word) : State :=
  ⟨ws.getD 0 0, ws.getD 1 0, ws.getD 2 0, ws.getD 3 0, ws.getD 4 0, ws.getD 5 0, ws.getD 6 0,
    ws.getD 7 0⟩

def State.toWords (s : State) : List Word := [s.a, s.b, s.c, s.d, s.e, s.f, s.g, s.h]

def compress (hash block : List Word) : List Word :=
  let final := (roundConstants.zip (schedule block)).foldl (fun s kw => s.round kw.1 kw.2)
    (State.ofWords hash)
  List.zipWith (· + ·) hash final.toWords

def blocks : ℕ → List Word → List (List Word)
  | 0, _ => []
  | n + 1, ws => ws.take 16 :: blocks n (ws.drop 16)

def digest (message : List (BitVec 8)) : List Word :=
  let ws := words (pad message)
  (blocks (ws.length / 16) ws).foldl compress initialHash

/-- `hashlib.sha256(message).hexdigest()`. -/
def hexdigest (message : List (BitVec 8)) : String :=
  .ofList ((digest message).flatMap fun w =>
    [28, 24, 20, 16, 12, 8, 4, 0].map fun k => Nat.digitChar ((w >>> k).toNat % 16))

/-- `str.encode("utf-8")`. -/
def utf8 (s : String) : List (BitVec 8) := s.toByteArray.toList.map (·.toBitVec)

example : hexdigest (utf8 "abc") =
    "ba7816bf8f01cfea414140de5dae2223b00361a396177a9cb410ff61f20015ad" := by decide +kernel

/-! ## Bytes of texts -/

theorem toList_loop (bs : ByteArray) (i : ℕ) (r : List UInt8) :
    ByteArray.toList.loop bs i r = r.reverse ++ bs.data.toList.drop i := by
  fun_induction ByteArray.toList.loop bs i r with
  | case1 i r hi ih =>
      have hi' : i < bs.data.toList.length := by simpa using hi
      have hget : bs.get! i = bs.data.toList[i] := by
        simp only [ByteArray.get!, Array.getElem_toList]
        rw [getElem!_pos]
      rw [ih, List.reverse_cons, List.append_assoc, List.singleton_append, hget,
        List.drop_eq_getElem_cons hi']
  | case2 i r hi =>
      rw [List.drop_eq_nil_of_le (by simpa using hi), List.append_nil]

theorem toList_eq_data (bs : ByteArray) : bs.toList = bs.data.toList := by
  rw [ByteArray.toList, toList_loop]
  rfl

theorem utf8_append (s t : String) : utf8 (s ++ t) = utf8 s ++ utf8 t := by
  simp only [utf8, toList_eq_data, String.toByteArray_append, ByteArray.toList_data_append,
    List.map_append]

theorem utf8_inj {s t : String} (h : utf8 s = utf8 t) : s = t := by
  simp only [utf8, toList_eq_data] at h
  have hdata := List.map_injective_iff.mpr (fun a b hab => UInt8.toBitVec_inj.mp hab) h
  exact String.toByteArray_inj.mp (ByteArray.ext (Array.toList_inj.mp hdata))

theorem length_compress {hash : List Word} (h : hash.length = 8) (block : List Word) :
    (compress hash block).length = 8 := by
  simp [compress, State.toWords, h]

theorem length_digest (message : List (BitVec 8)) : (digest message).length = 8 := by
  unfold digest
  dsimp only
  generalize blocks _ _ = bs
  have hfold : ∀ hash : List Word, hash.length = 8 → (bs.foldl compress hash).length = 8 := by
    induction bs with
    | nil => exact fun _ h => h
    | cons b bs ih => exact fun hash h => ih _ (length_compress h b)
  exact hfold initialHash rfl

theorem length_hexdigest (message : List (BitVec 8)) : (hexdigest message).toList.length = 64 := by
  rw [hexdigest, String.toList_ofList, List.length_flatMap]
  simp [length_digest]

/-- A digest is written in hexadecimal digits. -/
theorem mem_hexdigest {message : List (BitVec 8)} {c : Char} (h : c ∈ (hexdigest message).toList) :
    ∃ n < 16, c = Nat.digitChar n := by
  rw [hexdigest, String.toList_ofList] at h
  obtain ⟨w, -, hw⟩ := List.mem_flatMap.mp h
  obtain ⟨k, -, rfl⟩ := List.mem_map.mp hw
  exact ⟨_, Nat.mod_lt _ (by decide), rfl⟩

end Sha256
