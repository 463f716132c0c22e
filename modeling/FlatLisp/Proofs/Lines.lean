import FlatLisp.Shell.Reading

/-!
The lines of a text, read from its bytes. In UTF-8 a newline is a byte that
occurs in the encoding of no other character, so cutting the bytes at newlines
cuts the text there, and every line that is read is a line of the text, less
the carriage return that may end it.
-/

namespace FlatLisp.Shell

def encoded (text : List Char) : List UInt8 := text.flatMap String.utf8EncodeChar

theorem toUTF8_eq_encoded (text : List Char) :
    (String.ofList text).toUTF8.data = (encoded text).toArray := by
  rw [String.toUTF8_eq_toByteArray, String.toByteArray_ofList, List.utf8Encode,
    List.data_toByteArray, encoded]

@[simp] theorem encoded_append (first second : List Char) :
    encoded (first ++ second) = encoded first ++ encoded second :=
  List.flatMap_append

@[simp] theorem encoded_cons (c : Char) (rest : List Char) :
    encoded (c :: rest) = String.utf8EncodeChar c ++ encoded rest :=
  List.flatMap_cons

theorem encoded_concat (text : List Char) (c : Char) :
    encoded (text ++ [c]) = encoded text ++ String.utf8EncodeChar c := by
  rw [encoded, List.flatMap_append, List.flatMap_singleton, encoded]

theorem encoded_eq_nil_iff {text : List Char} : encoded text = [] ↔ text = [] := by
  cases text with
  | nil => simp [encoded]
  | cons c rest => simp

theorem decode?_encoded (text : List Char) :
    decode? (encoded text).toArray = some (String.ofList text) := by
  have hbytes : (⟨(encoded text).toArray⟩ : ByteArray) = (String.ofList text).toByteArray := by
    rw [← toUTF8_eq_encoded, String.toUTF8_eq_toByteArray]
  rw [decode?, hbytes, String.fromUTF8?, dif_pos (String.ofList text).isValidUTF8]
  rfl

theorem ofBytes_encoded (text : List Char) :
    Reading.ofBytes (encoded text).toArray = .line (String.ofList text) := by
  rw [Reading.ofBytes, decode?_encoded]

/-- A byte below 128 is a character of its own. -/
theorem toNat_of_mem_utf8EncodeChar {c : Char} {byte : UInt8} (hascii : byte.toNat < 128)
    (h : byte ∈ String.utf8EncodeChar c) : c.toNat = byte.toNat := by
  have hvalue : c.val.toNat = c.toNat := rfl
  have hhigh : ∀ n, 128 ≤ n % 256 → byte ≠ UInt8.ofNat n := by
    rintro n hn rfl
    rw [UInt8.toNat_ofNat'] at hascii
    omega
  simp only [String.utf8EncodeChar, hvalue] at h
  split at h
  · obtain rfl := List.mem_singleton.mp h
    rw [UInt8.toNat_ofNat']
    omega
  · exfalso
    split at h
    · simp only [List.mem_cons, List.not_mem_nil, or_false] at h
      rcases h with h | h <;> exact hhigh _ (by omega) h
    · split at h
      · simp only [List.mem_cons, List.not_mem_nil, or_false] at h
        rcases h with h | h | h <;> exact hhigh _ (by omega) h
      · simp only [List.mem_cons, List.not_mem_nil, or_false] at h
        rcases h with h | h | h | h <;> exact hhigh _ (by omega) h

theorem newline_not_mem_encoded {text : List Char} (h : '\n' ∉ text) : newline ∉ encoded text := by
  intro hmember
  obtain ⟨c, hc, hbyte⟩ := List.mem_flatMap.mp hmember
  have hvalue : c.toNat = '\n'.toNat := toNat_of_mem_utf8EncodeChar (by decide) hbyte
  rw [Char.toNat_inj.mp hvalue] at hc
  exact h hc

def withoutReturn (line : List Char) : List Char :=
  if line.getLast? = some '\r' then line.dropLast else line

theorem withoutReturn_concat (line : List Char) (c : Char) :
    withoutReturn (line ++ [c]) = if c = '\r' then line else line ++ [c] := by
  rw [withoutReturn, List.getLast?_concat, List.dropLast_concat]
  simp

/-- Dropping a carriage return from the bytes of a line is dropping it from the
text. The last byte of any other character is different from that of a carriage
return. -/
theorem dropReturn_encoded (line : List Char) :
    dropReturn (encoded line).toArray = (encoded (withoutReturn line)).toArray := by
  rcases List.eq_nil_or_concat line with rfl | ⟨start, c, rfl⟩
  · rfl
  · rw [List.concat_eq_append, withoutReturn_concat]
    by_cases hreturn : c = '\r'
    · subst hreturn
      have hbyte : String.utf8EncodeChar '\r' = [carriageReturn] := by decide
      rw [encoded_concat, hbyte, dropReturn]
      simp
    · rw [if_neg hreturn, dropReturn, if_neg]
      intro hback
      rw [List.back?_toArray, encoded_concat, List.getLast?_append,
        List.getLast?_eq_some_getLast String.utf8EncodeChar_ne_nil, Option.some_or,
        Option.some_inj] at hback
      have hmember : carriageReturn ∈ String.utf8EncodeChar c := hback ▸ List.getLast_mem _
      have hvalue : c.toNat = '\r'.toNat := toNat_of_mem_utf8EncodeChar (by decide) hmember
      exact hreturn (Char.toNat_inj.mp hvalue)

/-- Bytes without a newline belong to the line in progress. -/
theorem linesFrom_append {bytes : List UInt8} (h : newline ∉ bytes) (line : Array UInt8)
    (rest : List UInt8) : linesFrom line (bytes ++ rest) = linesFrom (line ++ bytes) rest := by
  induction bytes generalizing line with
  | nil => simp
  | cons byte bytes ih =>
      obtain ⟨hbyte, hmore⟩ : byte ≠ newline ∧ newline ∉ bytes := by simpa [eq_comm] using h
      rw [List.cons_append, linesFrom, if_neg hbyte, ih hmore]
      simp

theorem readings_line {line : List Char} (h : '\n' ∉ line) (rest : List Char) :
    readings (encoded (line ++ '\n' :: rest)).toArray =
      .line (String.ofList (withoutReturn line)) :: readings (encoded rest).toArray := by
  have hnewline : String.utf8EncodeChar '\n' = [newline] := by decide
  rw [readings, encoded_append, encoded_cons, hnewline, List.singleton_append,
    linesFrom_append (newline_not_mem_encoded h), linesFrom, if_pos rfl]
  simp [dropReturn_encoded, ofBytes_encoded, readings]

theorem readings_last {line : List Char} (h : '\n' ∉ line) (hnonempty : line ≠ []) :
    readings (encoded line).toArray = [.line (String.ofList line)] := by
  have hlines := linesFrom_append (newline_not_mem_encoded h) #[] []
  have hbytes : encoded line ≠ [] := fun hnil => hnonempty (encoded_eq_nil_iff.mp hnil)
  rw [List.append_nil] at hlines
  rw [readings, hlines, linesFrom]
  simp [hbytes, ofBytes_encoded]

/-- Induction over a text by its lines. -/
@[elab_as_elim] theorem lines_induction {motive : List Char → Prop}
    (last : ∀ line, '\n' ∉ line → motive line)
    (line : ∀ line rest, '\n' ∉ line → motive rest → motive (line ++ '\n' :: rest))
    (text : List Char) : motive text := by
  induction hlength : text.length using Nat.strongRecOn generalizing text with
  | ind n ih =>
      by_cases hnewline : '\n' ∈ text
      · obtain ⟨first, rest, rfl, hfirst⟩ := List.eq_append_cons_of_mem hnewline
        refine line first rest hfirst (ih rest.length ?_ rest rfl)
        rw [← hlength, List.length_append, List.length_cons]
        omega
      · exact last text hnewline

end FlatLisp.Shell
