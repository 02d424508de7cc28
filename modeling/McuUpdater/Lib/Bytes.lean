import Mathlib.Data.List.Basic
import Mathlib.Tactic.Ring

/-! Fixed-width little-endian words, and the slices of a byte string made of records of one
length. Nothing here names a program. -/
namespace McuUpdater.Bytes
variable {α β : Type*}

/-- The `w` little-endian bytes of `n`; what does not fit is dropped. -/
def encode : Nat → Nat → List UInt8
  | 0, _ => []
  | w + 1, n => UInt8.ofNat n :: encode w (n / 256)

def decode : List UInt8 → Nat
  | [] => 0
  | b :: bs => b.toNat + 256 * decode bs

/-- `data[off : off + n]` -/
def slice (data : List α) (off n : Nat) : List α := (data.drop off).take n

/-- The 32-bit word at `off`. -/
def word (data : List UInt8) (off : Nat) : Nat := decode (slice data off 4)

@[simp] theorem length_encode (w n : Nat) : (encode w n).length = w := by
  induction w generalizing n with
  | zero => rfl
  | succ w ih => simp [encode, ih]

theorem decode_encode {w n : Nat} (h : n < 256 ^ w) : decode (encode w n) = n := by
  induction w generalizing n with
  | zero =>
    simp only [pow_zero] at h
    simp only [encode, decode]
    omega
  | succ w ih =>
    have hdiv : n / 256 < 256 ^ w := by
      rw [pow_succ] at h
      exact Nat.div_lt_of_lt_mul (by rw [Nat.mul_comm]; exact h)
    rw [encode, decode, ih hdiv, UInt8.toNat_ofNat']
    omega

theorem decode_lt (data : List UInt8) : decode data < 256 ^ data.length := by
  induction data with
  | nil => simp [decode]
  | cons b bs ih =>
    have hb := b.toNat_lt
    rw [decode, List.length_cons, pow_succ]
    omega

theorem word_lt (data : List UInt8) (off : Nat) : word data off < 2 ^ 32 := by
  have hlength : (slice data off 4).length ≤ 4 := by simp [slice]
  calc word data off < 256 ^ (slice data off 4).length := decode_lt _
    _ ≤ 256 ^ 4 := Nat.pow_le_pow_right (by norm_num) hlength
    _ = 2 ^ 32 := by norm_num

theorem length_slice {data : List α} {off n : Nat} (h : off + n ≤ data.length) :
    (slice data off n).length = n := by
  simp only [slice, List.length_take, List.length_drop]
  omega

theorem slice_slice (data : List α) {a b n m : Nat} (h : b + m ≤ n) :
    slice (slice data a n) b m = slice data (a + b) m := by
  simp only [slice, List.drop_take, List.drop_drop, List.take_take]
  rw [Nat.min_eq_left (by omega)]

theorem word_slice (data : List UInt8) {a b n : Nat} (h : b + 4 ≤ n) :
    word (slice data a n) b = word data (a + b) := by
  rw [word, slice_slice data h, word]

theorem slice_append_left (x rest : List α) : slice (x ++ rest) 0 x.length = x := by
  simp [slice]

theorem slice_append_right (x rest : List α) (off n : Nat) :
    slice (x ++ rest) (x.length + off) n = slice rest off n := by
  have hx : x.drop (x.length + off) = [] := List.drop_eq_nil_of_le (by omega)
  simp [slice, List.drop_append, hx]

/-- What lies in the first part of a byte string is read there. -/
theorem slice_isPrefix {bytes out : List α} {offset n : Nat} (h : bytes <+: out)
    (hfit : offset + n ≤ bytes.length) :
    slice out offset n = slice bytes offset n := by
  obtain ⟨rest, rfl⟩ := h
  rw [slice, slice, List.drop_append_of_le_length (by omega),
    List.take_append_of_le_length (by rw [List.length_drop]; omega)]

theorem word_isPrefix {bytes out : List UInt8} {offset : Nat} (h : bytes <+: out)
    (hfit : offset + 4 ≤ bytes.length) :
    word out offset = word bytes offset := by
  rw [word, word, slice_isPrefix h hfit]

theorem length_flatMap_records {f : α → List β} {k : Nat} {l : List α}
    (hf : ∀ a ∈ l, (f a).length = k) : (l.flatMap f).length = k * l.length := by
  induction l with
  | nil => simp
  | cons a l ih =>
    rw [List.flatMap_cons, List.length_append, ih fun a' h' => hf a' (List.mem_cons_of_mem _ h'),
      hf a List.mem_cons_self, List.length_cons]
    ring

/-- The record at place `i` of a string of records of one length. -/
theorem slice_record {f : α → List β} {k : Nat} {l : List α} (hf : ∀ a ∈ l, (f a).length = k)
    (rest : List β) {i : Nat} (hi : i < l.length) :
    slice (l.flatMap f ++ rest) (k * i) k = f l[i] := by
  induction l generalizing i with
  | nil => simp at hi
  | cons a l ih =>
    have ha := hf a List.mem_cons_self
    rw [List.flatMap_cons, List.append_assoc]
    cases i with
    | zero =>
      have h := slice_append_left (f a) (l.flatMap f ++ rest)
      rw [ha] at h
      simpa using h
    | succ i =>
      have hlt : i < l.length := by simpa using hi
      have h := slice_append_right (f a) (l.flatMap f ++ rest) (k * i) k
      rw [ha, ih (fun a' h' => hf a' (List.mem_cons_of_mem _ h')) hlt] at h
      rw [Nat.mul_succ, Nat.add_comm, h, List.getElem_cons_succ]

end McuUpdater.Bytes
