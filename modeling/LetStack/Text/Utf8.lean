/-! Text as bytes in UTF-8, and bytes back as text without failing. -/

namespace LetStack

def encodeUtf8 (chars : List Char) : List UInt8 := chars.flatMap String.utf8EncodeChar

def replacementChar : Char := Char.ofNat 0xfffd

/-- What a first byte announces: its share of the code point, and for each byte that has to
follow the range in which it must lie. -/
structure Sequence where
  payload : Nat
  following : List (Nat × Nat)

def continuationRange : Nat × Nat := (0x80, 0xbf)

/-- The second byte's range leaves out over-long forms, surrogates and code points that are too
large. -/
def Sequence.ofLead (lead : Nat) : Option Sequence :=
  if lead < 0x80 then some ⟨lead, []⟩
  else if lead < 0xc2 then none
  else if lead < 0xe0 then some ⟨lead - 0xc0, [continuationRange]⟩
  else if lead = 0xe0 then some ⟨0, [(0xa0, 0xbf), continuationRange]⟩
  else if lead = 0xed then some ⟨0xd, [(0x80, 0x9f), continuationRange]⟩
  else if lead < 0xf0 then some ⟨lead - 0xe0, [continuationRange, continuationRange]⟩
  else if lead = 0xf0 then some ⟨0, [(0x90, 0xbf), continuationRange, continuationRange]⟩
  else if lead < 0xf4 then
    some ⟨lead - 0xf0, [continuationRange, continuationRange, continuationRange]⟩
  else if lead = 0xf4 then some ⟨4, [(0x80, 0x8f), continuationRange, continuationRange]⟩
  else none

/-- A sequence that breaks off becomes one replacement, and the byte that broke it is read anew. -/
def Sequence.finish : List (Nat × Nat) → Nat → List UInt8 → Char × List UInt8
  | [], payload, bytes => (Char.ofNat payload, bytes)
  | _ :: _, _, [] => (replacementChar, [])
  | range :: following, payload, byte :: rest =>
    if range.1 ≤ byte.toNat ∧ byte.toNat ≤ range.2 then
      finish following (payload * 64 + (byte.toNat - 0x80)) rest
    else (replacementChar, byte :: rest)

theorem Sequence.length_finish_le (following : List (Nat × Nat)) (payload : Nat)
    (bytes : List UInt8) : (Sequence.finish following payload bytes).2.length ≤ bytes.length := by
  induction following generalizing payload bytes with
  | nil => simp [finish]
  | cons range following ih =>
      cases bytes with
      | nil => simp [finish]
      | cons byte rest =>
          simp only [finish]
          split
          · exact Nat.le_succ_of_le (ih _ rest)
          · simp

def decodeUtf8 : List UInt8 → List Char
  | [] => []
  | lead :: rest =>
    match Sequence.ofLead lead.toNat with
    | none => replacementChar :: decodeUtf8 rest
    | some sequence =>
      let decoded := Sequence.finish sequence.following sequence.payload rest
      decoded.1 :: decodeUtf8 decoded.2
termination_by bytes => bytes.length
decreasing_by
  · simp
  · exact Nat.lt_succ_of_le (Sequence.length_finish_le _ _ rest)

end LetStack
