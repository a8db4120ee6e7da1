import LetStack.Machine.Display

/-! Text that is written as bytes is read back unchanged, without any replacement. -/

namespace LetStack

namespace Sequence

theorem finish_in_range {range : Nat × Nat} {following : List (Nat × Nat)} {payload value : Nat}
    {rest : List UInt8} (small : value < 256) (lower : range.1 ≤ value) (upper : value ≤ range.2) :
    finish (range :: following) payload (UInt8.ofNat value :: rest) =
      finish following (payload * 64 + (value - 0x80)) rest := by
  have read : (UInt8.ofNat value).toNat = value := by simp [Nat.mod_eq_of_lt small]
  simp [finish, read, lower, upper]

theorem finish_continuation {following : List (Nat × Nat)} {payload value : Nat}
    {rest : List UInt8} (lower : 0x80 ≤ value) (upper : value ≤ 0xbf) :
    finish (continuationRange :: following) payload (UInt8.ofNat value :: rest) =
      finish following (payload * 64 + (value - 0x80)) rest :=
  finish_in_range (by omega) lower upper

theorem ofLead_two {lead : Nat} (lower : 0xc2 ≤ lead) (upper : lead < 0xe0) :
    ofLead lead = some ⟨lead - 0xc0, [continuationRange]⟩ := by
  rw [ofLead, if_neg (by omega), if_neg (by omega), if_pos upper]

/-- Only the first and the fourteenth of these lead bytes narrow the range of the second byte. -/
theorem ofLead_three (lead : Nat) (lower : 0xe0 ≤ lead) (upper : lead < 0xf0) :
    ∃ low high, ofLead lead = some ⟨lead - 0xe0, [(low, high), continuationRange]⟩ ∧
      low = (if lead = 0xe0 then 0xa0 else 0x80) ∧ high = (if lead = 0xed then 0x9f else 0xbf) := by
  rw [ofLead, if_neg (by omega), if_neg (by omega), if_neg (by omega)]
  by_cases first : lead = 0xe0
  · subst lead
    exact ⟨_, _, rfl, rfl, rfl⟩
  · by_cases surrogate : lead = 0xed
    · subst lead
      exact ⟨_, _, rfl, rfl, rfl⟩
    · rw [if_neg first, if_neg surrogate, if_pos upper]
      exact ⟨_, _, rfl, by rw [if_neg first], by rw [if_neg surrogate]⟩

theorem ofLead_four (lead : Nat) (lower : 0xf0 ≤ lead) (upper : lead ≤ 0xf4) :
    ∃ low high, ofLead lead =
        some ⟨lead - 0xf0, [(low, high), continuationRange, continuationRange]⟩ ∧
      low = (if lead = 0xf0 then 0x90 else 0x80) ∧ high = (if lead = 0xf4 then 0x8f else 0xbf) := by
  rw [ofLead, if_neg (by omega), if_neg (by omega), if_neg (by omega), if_neg (by omega),
    if_neg (by omega), if_neg (by omega)]
  by_cases first : lead = 0xf0
  · subst lead
    exact ⟨_, _, rfl, rfl, rfl⟩
  · by_cases last : lead = 0xf4
    · subst lead
      exact ⟨_, _, rfl, rfl, rfl⟩
    · rw [if_neg first, if_pos (by omega)]
      exact ⟨_, _, rfl, by rw [if_neg first], by rw [if_neg last]⟩

end Sequence

theorem decodeUtf8_of_lead {lead payload : Nat} {following : List (Nat × Nat)}
    {rest : List UInt8} (small : lead < 256)
    (found : Sequence.ofLead lead = some ⟨payload, following⟩) :
    decodeUtf8 (UInt8.ofNat lead :: rest) =
      (Sequence.finish following payload rest).1 ::
        decodeUtf8 (Sequence.finish following payload rest).2 := by
  have read : (UInt8.ofNat lead).toNat = lead := by simp [Nat.mod_eq_of_lt small]
  rw [decodeUtf8, read, found]

theorem codePoint_bounds (char : Char) :
    char.val.toNat < 0xd800 ∨ (0xdfff < char.val.toNat ∧ char.val.toNat < 0x110000) :=
  char.valid

theorem decodeUtf8_append_char (char : Char) (rest : List UInt8) :
    decodeUtf8 (String.utf8EncodeChar char ++ rest) = char :: decodeUtf8 rest := by
  have bounds := codePoint_bounds char
  have whole : Char.ofNat char.val.toNat = char := Char.ofNat_toNat char
  simp only [String.utf8EncodeChar]
  generalize char.val.toNat = point at bounds whole ⊢
  split
  · have found : Sequence.ofLead point = some ⟨point, []⟩ := by
      rw [Sequence.ofLead, if_pos (by omega)]
    simp only [List.cons_append, List.nil_append]
    rw [decodeUtf8_of_lead (by omega) found, Sequence.finish, whole]
  · split
    · simp only [List.cons_append, List.nil_append]
      rw [decodeUtf8_of_lead (by omega) (Sequence.ofLead_two (by omega) (by omega)),
        Sequence.finish_continuation (by omega) (by omega),
        Sequence.finish]
      rw [show (point / 64 % 32 + 192 - 192) * 64 + (point % 64 + 128 - 128) = point by omega, whole]
    · split
      · obtain ⟨low, high, found, lowEq, highEq⟩ :=
          Sequence.ofLead_three (point / 4096 % 16 + 224) (by omega) (by omega)
        simp only [List.cons_append, List.nil_append]
        rw [decodeUtf8_of_lead (by omega) found,
          Sequence.finish_in_range (by omega) (by split at lowEq <;> omega)
            (by split at highEq <;> omega),
          Sequence.finish_continuation (by omega) (by omega),
          Sequence.finish]
        rw [show ((point / 4096 % 16 + 224 - 224) * 64 + (point / 64 % 64 + 128 - 128)) * 64
          + (point % 64 + 128 - 128) = point by omega, whole]
      · obtain ⟨low, high, found, lowEq, highEq⟩ :=
          Sequence.ofLead_four (point / 262144 % 8 + 240) (by omega) (by omega)
        simp only [List.cons_append, List.nil_append]
        rw [decodeUtf8_of_lead (by omega) found,
          Sequence.finish_in_range (by omega) (by split at lowEq <;> omega)
            (by split at highEq <;> omega),
          Sequence.finish_continuation (by omega) (by omega),
          Sequence.finish_continuation (by omega) (by omega),
          Sequence.finish]
        rw [show (((point / 262144 % 8 + 240 - 240) * 64 + (point / 4096 % 64 + 128 - 128)) * 64
          + (point / 64 % 64 + 128 - 128)) * 64 + (point % 64 + 128 - 128) = point by omega, whole]

theorem decodeUtf8_encodeUtf8 (chars : List Char) : decodeUtf8 (encodeUtf8 chars) = chars := by
  induction chars with
  | nil => rw [encodeUtf8, List.flatMap_nil, decodeUtf8]
  | cons char rest ih =>
      rw [encodeUtf8, List.flatMap_cons, decodeUtf8_append_char]
      exact congrArg (char :: ·) ih

theorem bytesText_encodeUtf8 (content : String) :
    bytesText (encodeUtf8 content.toList) = content := by
  rw [bytesText, decodeUtf8_encodeUtf8, String.ofList_toList]

end LetStack
