import RdmaBook.Lib.Stream

/-!
# C strings in a buffer

The standard functions that put a text into a buffer of a given size, by the bytes
they store. Both cut a text that is too long; `snprintf` ends what it stores with
the null byte and leaves the rest of the buffer alone, `strncpy` fills the rest
with null bytes and stores none when the text takes the whole size.

A text without a null byte that is stored with one behind it is what is read back
there (`CString.str_of_window`).
-/

namespace CString

/-- The bytes of an ASCII text. -/
def ascii (s : String) : List UInt8 := s.toList.map fun c => UInt8.ofNat c.toNat

/-- The decimal digits of a number, padded with zeros: `%0*d` of a number that is
not negative. -/
def decimal (width n : ℕ) : List UInt8 :=
  ((Nat.toDigits 10 n).leftpad width '0').map fun c => UInt8.ofNat c.toNat

/-- `snprintf` into the start of a buffer: what of the formatted text fits with a
null byte behind it; nothing when the size is zero. -/
def snprintf (buf : List UInt8) (size : ℕ) (text : List UInt8) : List UInt8 :=
  if size = 0 then buf else Stream.overlay buf 0 (text.take (size - 1) ++ [0])

/-- `strncpy` into a range of `size` bytes, by the bytes it stores. -/
def strncpy (text : List UInt8) (size : ℕ) : List UInt8 :=
  text.take size ++ List.replicate (size - text.length) 0

variable {buf text : List UInt8} {size : ℕ}

/-- `snprintf` stays inside the size it is given. -/
theorem length_snprintf (h : size ≤ buf.length) : (snprintf buf size text).length = buf.length := by
  rw [snprintf]
  split
  · rfl
  · refine Stream.length_overlay ?_
    rw [List.length_append, List.length_take, List.length_singleton]
    omega

/-- `strncpy` stores exactly the size it is given. -/
theorem length_strncpy : (strncpy text size).length = size := by
  rw [strncpy, List.length_append, List.length_take, List.length_replicate]
  omega

/-! ### Reading back -/

/-- The string at a place of a memory: the bytes up to the first null byte. It is
what `%s` prints. -/
def str (mem : List UInt8) (off : ℕ) : List UInt8 := (mem.drop off).takeWhile (· ≠ 0)

/-- `strlen`. -/
def strlen (mem : List UInt8) (off : ℕ) : ℕ := (str mem off).length

variable {mem : List UInt8} {off n : ℕ}

/-- **A stored text is read back.** -/
theorem str_of_prefix (h0 : (0 : UInt8) ∉ text) (h : text ++ [0] <+: mem.drop off) :
    str mem off = text := by
  obtain ⟨rest, hrest⟩ := h
  rw [str, ← hrest, List.append_assoc, List.takeWhile_append_of_pos]
  · rw [List.singleton_append, List.takeWhile_cons_of_neg (by simp), List.append_nil]
  · intro b hb
    simp only [ne_eq, decide_not, Bool.not_eq_eq_eq_not, Bool.not_true, decide_eq_false_iff_not]
    rintro rfl
    exact h0 hb

/-- A window of a memory is a prefix of what stands there. -/
theorem str_of_window {b : ℕ} (h0 : (0 : UInt8) ∉ text)
    (h : Stream.window mem off b = text ++ [0]) :
    str mem off = text :=
  str_of_prefix h0 (h ▸ List.take_prefix _ _)

/-- The text is stored whole where it fits with its null byte. -/
theorem snprintf_of_lt (h : text.length < size) :
    snprintf buf size text = Stream.overlay buf 0 (text ++ [0]) := by
  rw [snprintf, if_neg (Nat.ne_of_gt (Nat.zero_lt_of_lt h)), List.take_of_length_le (by omega)]

/-- The digits of a number are no null bytes. -/
theorem zero_notMem_decimal {width : ℕ} : (0 : UInt8) ∉ decimal width n := by
  intro h
  obtain ⟨c, hc, h0⟩ := List.mem_map.mp h
  have hdigit : c.isDigit = true := by
    rw [List.leftpad] at hc
    rcases List.mem_append.mp hc with hc | hc
    · rw [List.eq_of_mem_replicate hc]
      decide
    · exact Nat.isDigit_of_mem_toDigits (by decide) (by decide) hc
  have hrange : 48 ≤ c.toNat ∧ c.toNat ≤ 57 := by
    rw [Char.isDigit, Bool.and_eq_true] at hdigit
    exact ⟨by simpa [UInt32.le_iff_toNat_le] using hdigit.1,
      by simpa [UInt32.le_iff_toNat_le] using hdigit.2⟩
  have hmod : c.toNat % 256 = 0 := by
    have := congrArg UInt8.toNat h0
    simpa using this
  omega

/-- `%d` of a number below `10 ^ k` has at most `k` digits. -/
theorem length_decimal_le {k : ℕ} (hk : 0 < k) (h : n < 10 ^ k) : (decimal 0 n).length ≤ k := by
  rw [decimal, List.length_map, List.leftpad, Nat.zero_sub, List.replicate_zero, List.nil_append]
  exact (Nat.length_toDigits_le_iff (by decide) hk).mpr h

end CString
