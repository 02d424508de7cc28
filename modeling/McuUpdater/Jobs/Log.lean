import Mathlib.Data.List.Basic
import Mathlib.Data.List.Induction

/-! `jobs.py`: the log of a job, a ring buffer of numbered lines. -/
namespace McuUpdater.Jobs

structure LogLine where
  seq : Nat
  stream : String
  text : String
  deriving DecidableEq

structure JobLog where
  lines : List LogLine := []
  nextSeq : Nat := 0
  dropped : Nat := 0

/-- `Job.append`, where the deque holds at most `size` lines. -/
def JobLog.append (size : Nat) (log : JobLog) (stream text : String) : JobLog :=
  let lines := log.lines ++ [⟨log.nextSeq, stream, text⟩]
  if log.lines.length = size then ⟨lines.drop 1, log.nextSeq + 1, log.dropped + 1⟩
  else ⟨lines, log.nextSeq + 1, log.dropped⟩

/-- The lines, the first index served and the next one. -/
def JobLog.logSince (log : JobLog) (fromSeq : Nat) : List LogLine × Nat × Nat :=
  match log.lines with
  | [] => ([], max fromSeq log.dropped, log.nextSeq)
  | oldest :: _ =>
    let start := max fromSeq oldest.seq
    (log.lines.filter (start ≤ ·.seq), start, log.nextSeq)

/-- The log of a job that has put out these lines. -/
def JobLog.of (size : Nat) (output : List (String × String)) : JobLog :=
  output.foldl (fun log line => log.append size line.1 line.2) {}

def numbered (output : List (String × String)) : List LogLine :=
  output.zipIdx.map fun line => ⟨line.2, line.1.1, line.1.2⟩

section Ring
variable {size : Nat} {output : List (String × String)}

@[simp] theorem length_numbered : (numbered output).length = output.length := by
  simp [numbered]

theorem numbered_append (line : String × String) :
    numbered (output ++ [line]) = numbered output ++ [⟨output.length, line.1, line.2⟩] := by
  simp [numbered, List.zipIdx_append]

theorem getElem?_numbered (i : Nat) :
    (numbered output)[i]? = output[i]?.map fun line => ⟨i, line.1, line.2⟩ := by
  simp [numbered, Function.comp_def]

theorem mem_drop_numbered {line : LogLine} {d : Nat} : line ∈ (numbered output).drop d ↔
    output[line.seq]? = some (line.stream, line.text) ∧ d ≤ line.seq := by
  simp only [List.mem_iff_getElem?, List.getElem?_drop, getElem?_numbered,
    Option.map_eq_some_iff]
  constructor
  · rintro ⟨i, out, hout, rfl⟩
    exact ⟨hout, Nat.le_add_right d i⟩
  · rintro ⟨hout, hd⟩
    refine ⟨line.seq - d, (line.stream, line.text), ?_, ?_⟩ <;> rw [Nat.add_sub_cancel' hd]
    exact hout

theorem JobLog.of_append (line : String × String) :
    JobLog.of size (output ++ [line]) = (JobLog.of size output).append size line.1 line.2 := by
  simp [JobLog.of]

/-- The ring buffer holds the last `size` lines. -/
theorem JobLog.of_eq : JobLog.of size output =
    ⟨(numbered output).drop (output.length - size), output.length, output.length - size⟩ := by
  induction output using List.reverseRecOn with
  | nil => simp [JobLog.of, numbered]
  | append_singleton output line ih =>
    rw [JobLog.of_append, ih, numbered_append, JobLog.append]
    simp only [List.length_drop, length_numbered, List.length_append, List.length_singleton]
    by_cases h : size ≤ output.length
    · have hd : output.length + 1 - size = output.length - size + 1 := by omega
      have hl : output.length - (output.length - size) = size := by omega
      have hkeep (last : List LogLine) : (numbered output ++ last).drop (output.length - size) =
          (numbered output).drop (output.length - size) ++ last :=
        List.drop_append_of_le_length (by simp)
      rw [if_pos hl, hd, ← List.drop_drop, hkeep]
    · have hd : output.length + 1 - size = 0 := by omega
      have hl : output.length - size = 0 := by omega
      rw [if_neg (by omega), hd, hl]
      simp

theorem JobLog.logSince_of (fromSeq : Nat) :
    ((JobLog.of size output).logSince fromSeq).2 =
      (max fromSeq (output.length - size), output.length) := by
  rw [JobLog.of_eq, JobLog.logSince]
  cases hl : (numbered output).drop (output.length - size) with
  | nil => rfl
  | cons oldest rest =>
    -- the oldest line still there is the first that was not dropped
    have h0 := congrArg List.head? hl
    rw [List.head?_drop, getElem?_numbered, List.head?_cons, Option.map_eq_some_iff] at h0
    obtain ⟨out, -, rfl⟩ := h0
    rfl

theorem JobLog.mem_logSince_of {fromSeq : Nat} {line : LogLine} :
    line ∈ ((JobLog.of size output).logSince fromSeq).1 ↔
      output[line.seq]? = some (line.stream, line.text) ∧
      max fromSeq (output.length - size) ≤ line.seq := by
  have hstart : ((JobLog.of size output).logSince fromSeq).2.1 = _ :=
    congrArg Prod.fst (JobLog.logSince_of fromSeq)
  rw [JobLog.of_eq, JobLog.logSince] at hstart ⊢
  cases hl : (numbered output).drop (output.length - size) with
  | nil =>
    have hm : line ∈ (numbered output).drop (output.length - size) ↔ _ := mem_drop_numbered
    rw [hl] at hm
    simp only [List.not_mem_nil, false_iff, not_and] at hm ⊢
    exact fun hout hs => hm hout (Nat.le_trans (Nat.le_max_right _ _) hs)
  | cons oldest rest =>
    simp only [hl] at hstart ⊢
    rw [List.mem_filter, ← hl, mem_drop_numbered, hstart, decide_eq_true_iff, and_assoc]
    exact and_congr_right fun _ => and_iff_right_of_imp (Nat.le_trans (Nat.le_max_right _ _))

end Ring
end McuUpdater.Jobs
