import Mathlib.Data.List.Basic
import Mathlib.Logic.Function.Iterate

/-! Cyclic redundancy checks of any width, the most significant bit first, and the bursts of errors
they detect. Nothing here names a program. -/
namespace McuUpdater.Crc
variable {w : Nat} (g : BitVec w)

/-- One bit of the message into the register; `g` is the generator without its leading term. -/
def stepBit (r : BitVec w) (b : Bool) : BitVec w :=
  if r.msb ^^ b then r <<< 1 ^^^ g else r <<< 1

def remainder (r : BitVec w) (message : List Bool) : BitVec w := message.foldl (stepBit g) r

/-- `stepBit` of a bit that is in the register already. -/
def shift (r : BitVec w) : BitVec w := if r.msb then r <<< 1 ^^^ g else r <<< 1

def bitsOf (b : BitVec w) : List Bool := (List.range w).map b.getMsbD

def bits (message : List (BitVec w)) : List Bool := message.flatMap bitsOf

/-- Two messages of one length that differ, and only inside a window of `n` bits. -/
def Burst (n : Nat) (a b : List Bool) : Prop :=
  a.length = b.length ∧ a ≠ b ∧ ∃ i, ∀ j, j < i ∨ i + n ≤ j → a[j]? = b[j]?

section Words
variable {g}

theorem shift_xor (r b : BitVec w) : shift g (r ^^^ b) = stepBit g r b.msb ^^^ b <<< 1 := by
  rw [shift, stepBit, BitVec.msb_xor, BitVec.shiftLeft_xor_distrib]
  split_ifs
  · rw [BitVec.xor_assoc, BitVec.xor_comm (b <<< 1), ← BitVec.xor_assoc]
  · rfl

theorem iterate_shift (r b : BitVec w) (n : Nat) :
    (shift g)^[n] (r ^^^ b) = remainder g r ((List.range n).map b.getMsbD) ^^^ b <<< n := by
  induction n with
  | zero => simp [remainder]
  | succ n ih =>
    have hmsb : (b <<< n).msb = b.getMsbD n := by
      rw [BitVec.msb, BitVec.getMsbD_shiftLeft, Nat.zero_add]
    rw [Function.iterate_succ_apply', ih, shift_xor, hmsb, List.range_succ, List.map_append,
      remainder, remainder, List.foldl_append, ← BitVec.shiftLeft_add]
    rfl

/-- The shifts of a word are the steps of its bits. -/
theorem shift_word (r b : BitVec w) : (shift g)^[w] (r ^^^ b) = remainder g r (bitsOf b) := by
  rw [iterate_shift, BitVec.shiftLeft_eq_zero (Nat.le_refl w), BitVec.xor_zero, bitsOf]

theorem foldl_shift (r : BitVec w) (message : List (BitVec w)) :
    message.foldl (fun r b => (shift g)^[w] (r ^^^ b)) r = remainder g r (bits message) := by
  induction message generalizing r with
  | nil => rfl
  | cons b message ih =>
    have hcons : bits (b :: message) = bitsOf b ++ bits message := List.flatMap_cons
    rw [List.foldl_cons, ih, shift_word, hcons, remainder, remainder, remainder, List.foldl_append]

theorem length_bits (message : List (BitVec w)) : (bits message).length = message.length * w := by
  induction message with
  | nil => simp [bits]
  | cons b message ih =>
    rw [bits, List.flatMap_cons, List.length_append, ← bits, ih]
    simp [bitsOf, Nat.add_mul, Nat.add_comm]

end Words

section Bursts
variable {g} {r s : BitVec w}

theorem getMsbD_stepBit (r : BitVec w) (b : Bool) (i : Nat) :
    (stepBit g r b).getMsbD i = (r.getMsbD (i + 1) ^^ ((r.msb ^^ b) && g.getMsbD i)) := by
  rw [stepBit]
  split_ifs with h
  · simp [h]
  · simp [h]

/-- The last bit shows whether the generator was taken, since its own last bit is set. -/
theorem feedback_eq (hg : g.getMsbD (w - 1) = true) {a b : Bool}
    (h : (stepBit g r a).getMsbD (w - 1) = (stepBit g s b).getMsbD (w - 1)) :
    (r.msb ^^ a) = (s.msb ^^ b) := by
  have hpast : ∀ x : BitVec w, x.getMsbD (w - 1 + 1) = false :=
    fun x => BitVec.getMsbD_of_ge x _ (by omega)
  simpa [getMsbD_stepBit, hpast, hg] using h

theorem stepBit_injective (hg : g.getMsbD (w - 1) = true) {b : Bool}
    (h : stepBit g r b = stepBit g s b) : r = s := by
  have hfeedback := feedback_eq hg (congrArg (BitVec.getMsbD · (w - 1)) h)
  have hmsb : r.getMsbD 0 = s.getMsbD 0 := by simpa [BitVec.msb] using hfeedback
  refine BitVec.eq_of_getMsbD_eq fun i _ => ?_
  cases i with
  | zero => exact hmsb
  | succ i =>
    have hi := congrArg (BitVec.getMsbD · i) h
    simpa [getMsbD_stepBit, hfeedback] using hi

theorem remainder_injective (hg : g.getMsbD (w - 1) = true) {message : List Bool}
    (h : remainder g r message = remainder g s message) : r = s := by
  induction message generalizing r s with
  | nil => exact h
  | cons b message ih => exact stepBit_injective hg (ih h)

/-- Where two short messages end in one register, the registers they began in differ as they do. -/
theorem getMsbD_of_remainder_eq (hg : g.getMsbD (w - 1) = true) {p q : List Bool}
    (hlength : p.length = q.length) (hp : p.length ≤ w)
    (h : remainder g r p = remainder g s q) (i : Nat) :
    (r.getMsbD i ^^ s.getMsbD i) = (p.getD i false ^^ q.getD i false) := by
  induction p generalizing q r s i with
  | nil =>
    obtain rfl : q = [] := List.eq_nil_of_length_eq_zero hlength.symm
    obtain rfl : r = s := h
    simp
  | cons a p ih =>
    cases q with
    | nil => cases hlength
    | cons b q =>
      have hlength : p.length = q.length := Nat.succ.inj hlength
      rw [List.length_cons] at hp
      have hstep := ih (r := stepBit g r a) (s := stepBit g s b) hlength (by omega) h
      have hfeedback : (r.msb ^^ a) = (s.msb ^^ b) := by
        have hlast := hstep (w - 1)
        rw [List.getD_eq_getElem?_getD, List.getD_eq_getElem?_getD, List.getElem?_eq_none (by omega),
          List.getElem?_eq_none (by omega)] at hlast
        exact feedback_eq hg (by simpa using hlast)
      cases i with
      | zero =>
        change (r.msb ^^ s.msb) = (a ^^ b)
        revert hfeedback
        cases r.msb <;> cases s.msb <;> cases a <;> cases b <;> simp
      | succ i =>
        have hcancel : ∀ x y z : Bool, ((x ^^ z) ^^ (y ^^ z)) = (x ^^ y) := by decide
        have hi := hstep i
        rw [getMsbD_stepBit, getMsbD_stepBit, hfeedback, hcancel] at hi
        exact hi

/-- Errors in at most as many bits as the check has are detected. -/
theorem remainder_ne_of_burst (hg : g.getMsbD (w - 1) = true) {a b : List Bool} (h : Burst w a b)
    (r : BitVec w) : remainder g r a ≠ remainder g r b := by
  obtain ⟨hlength, hne, i, hsame⟩ := h
  intro hr
  have hbefore : a.take i = b.take i := by
    refine List.ext_getElem? fun j => ?_
    rw [List.getElem?_take, List.getElem?_take]
    split_ifs with hj
    · exact hsame j (.inl hj)
    · rfl
  have hafter : (a.drop i).drop w = (b.drop i).drop w := by
    refine List.ext_getElem? fun j => ?_
    rw [List.drop_drop, List.drop_drop, List.getElem?_drop, List.getElem?_drop]
    exact hsame _ (.inr (Nat.le_add_right _ j))
  have hparts : ∀ c : List Bool, c = c.take i ++ ((c.drop i).take w ++ (c.drop i).drop w) := by
    intro c
    rw [List.take_append_drop, List.take_append_drop]
  have hwindow : ((a.drop i).take w).length = ((b.drop i).take w).length := by simp [hlength]
  -- the registers before the window and those after it are the same for both
  rw [hparts a, hparts b, hbefore, hafter] at hr
  simp only [remainder, List.foldl_append] at hr
  have hr := remainder_injective hg hr
  have hbits := getMsbD_of_remainder_eq hg hwindow (List.length_take_le ..) hr
  have heq : (a.drop i).take w = (b.drop i).take w := by
    refine List.ext_getElem hwindow fun j ha hb => ?_
    have hj := hbits j
    rw [Bool.xor_self, List.getD_eq_getElem?_getD, List.getD_eq_getElem?_getD,
      List.getElem?_eq_getElem ha, List.getElem?_eq_getElem hb] at hj
    simpa using hj.symm
  rw [hparts a, hparts b, hbefore, hafter, heq] at hne
  exact hne rfl

end Bursts

end McuUpdater.Crc
