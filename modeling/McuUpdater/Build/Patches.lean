import McuUpdater.Lib.Lines
import McuUpdater.Registry.Types
import Mathlib.Logic.Function.Basic

/-! `build.py`: `makefile_patches`. A path leads to the same file throughout, the body
writes none of the patched files, and writing a backup back succeeds. -/
namespace McuUpdater.Build
open PyText Lines Registry

/-- `b"\n"` -/
def newline : UInt8 := 10

/-- `os.path.join(directory, name)` -/
def joinPath (directory name : Str) : Str :=
  if name.head? = some '/' then name
  else if directory = [] ∨ directory.getLast? = some '/' then directory ++ name
  else directory ++ '/' :: name

/-- The `OSError` of one patch: at the `rb` open or read, or in the append after some
of its bytes. -/
inductive Fault
  | read
  | append (written : Nat)

structure Patching where
  content : Nat → Bytes
  backups : List (Str × Option Bytes) := []
  reports : List (String × Str) := []

def Patching.report (s : Patching) (level : String) (text : Str) : Patching :=
  { s with reports := s.reports ++ [(level, text)] }

def Patching.backup (s : Patching) (target : Str) (saved : Option Bytes) : Patching :=
  { s with backups := s.backups ++ [(target, saved)] }

def Patching.write (s : Patching) (i : Nat) (b : Bytes) : Patching :=
  { s with content := Function.update s.content i b }

section Model
-- the file a path leads to, and the source tree of the firmware
variable (resolve : Str → Option Nat) (fwDir : Str) (dryRun : Bool)

/-- One iteration of `for patch in patches:`, and whether it raises. -/
def patchOne (fault : Option Fault) (p : MakefilePatch) (s : Patching) : Patching × Bool :=
  let target := joinPath fwDir p.file
  let quoted := '\'' :: p.line ++ "'".toList
  match resolve target with
  | none =>
    (s.report "warn" ("patch target ".toList ++ target ++ " not found, skipping ".toList ++ quoted),
      false)
  | some i =>
    if dryRun then
      (s.report "info" ("[dry-run] would patch ".toList ++ target ++ ": add ".toList ++ quoted),
        false)
    else
      let original := s.content i
      let line := encode p.line
      match fault with
      | some .read => (s, true)
      | fault =>
        -- left over from an interrupted run: left alone, and not reverted
        if line <:+: original then
          ((s.report "warn" (quoted ++ " already present in ".toList ++ target ++
            (" (left over from an interrupted run?) - leaving it alone, " ++
              "not reverting it.").toList)).backup target none, false)
        else
          let s := s.backup target (some original)
          let patched := appendLine newline original line
          match fault with
          | some (.append written) => (s.write i (patched.take (original.length + written)), true)
          | _ =>
            ((s.write i patched).report "info"
              ("Temporarily patched ".toList ++ target ++ ": added ".toList ++ quoted), false)

/-- The `for` loop; the patches are numbered for their faults. -/
def patchAll (fault : Nat → Option Fault) : Nat → List MakefilePatch → Patching → Patching × Bool
  | _, [], s => (s, false)
  | k, p :: ps, s =>
    match patchOne resolve fwDir dryRun (fault k) p s with
    | (s, false) => patchAll fault (k + 1) ps s
    | (s, true) => (s, true)

/-- `finally: for target, saved in backups:` -/
def restoreOne (s : Patching) (b : Str × Option Bytes) : Patching :=
  match b.2, resolve b.1 with
  | some saved, some i =>
    (s.write i saved).report "info"
      ("Restored ".toList ++ b.1 ++ " to its original contents".toList)
  | _, _ => s

def restore (s : Patching) : Patching := s.backups.foldl (restoreOne resolve) s

/-- What the files hold when the body is entered, when it is, and on exit. -/
structure Passage where
  entered : Option (Nat → Bytes)
  exited : Nat → Bytes
  raised : Bool

/-- `with makefile_patches(...):` around a body that returns or raises. -/
def makefilePatches (patches : List MakefilePatch) (fault : Nat → Option Fault)
    (bodyRaises : Bool) (content : Nat → Bytes) : Passage :=
  match patchAll resolve fwDir dryRun fault 0 (patches.filter (·.isValid)) { content } with
  | (s, false) => ⟨some s.content, (restore resolve s).content, bodyRaises⟩
  | (s, true) => ⟨none, (restore resolve s).content, true⟩

end Model

/-- Every patch's line is a whole line of its file when the body is entered, and every
file is what it was on exit, whatever raises. -/
def Transparent (resolve : Str → Option Nat) (fwDir : Str) (dryRun : Bool)
    (patches : List MakefilePatch) (content : Nat → Bytes) : Prop :=
  ∀ fault bodyRaises,
    let r := makefilePatches resolve fwDir dryRun patches fault bodyRaises content
    (∀ c, r.entered = some c → ∀ p ∈ patches, p.isValid →
      ∃ i, resolve (joinPath fwDir p.file) = some i ∧
        encode p.line ∈ (c i).splitOn newline) ∧
    r.exited = content

section Facts
variable {resolve : Str → Option Nat} {fwDir : Str} {p : MakefilePatch} {s : Patching}

/-- The contents saved for a file, oldest first. -/
def Patching.saved (resolve : Str → Option Nat) (s : Patching) (i : Nat) : List Bytes :=
  s.backups.filterMap fun b => if resolve b.1 = some i then b.2 else none

@[simp] theorem report_content (s : Patching) (level : String) (text : Str) :
    (s.report level text).content = s.content := rfl
@[simp] theorem report_saved (s : Patching) (level : String) (text : Str) (i : Nat) :
    (s.report level text).saved resolve i = s.saved resolve i := rfl
@[simp] theorem backup_content (s : Patching) (target : Str) (b : Option Bytes) :
    (s.backup target b).content = s.content := rfl
@[simp] theorem write_saved (s : Patching) (j : Nat) (b : Bytes) (i : Nat) :
    (s.write j b).saved resolve i = s.saved resolve i := rfl

theorem write_content (s : Patching) (j : Nat) (b : Bytes) (i : Nat) :
    (s.write j b).content i = if i = j then b else s.content i := by
  simp [Patching.write, Function.update_apply]

@[simp] theorem saved_backup_none (s : Patching) (target : Str) (i : Nat) :
    (s.backup target none).saved resolve i = s.saved resolve i := by
  simp [Patching.saved, Patching.backup]

theorem saved_backup_some (s : Patching) (target : Str) (b : Bytes) (i : Nat) :
    (s.backup target (some b)).saved resolve i =
      s.saved resolve i ++ if resolve target = some i then [b] else [] := by
  by_cases h : resolve target = some i <;> simp [Patching.saved, Patching.backup, h]

/-- The file is as `s` has it. -/
def Keeps (resolve : Str → Option Nat) (s s' : Patching) (i : Nat) : Prop :=
  s'.content i = s.content i ∧ s'.saved resolve i = s.saved resolve i

/-- All that one patch can do to a file: nothing, or append its line to it with the
old contents saved, or raise with or without having saved them. -/
theorem patchOne_cases (fault : Option Fault) (p : MakefilePatch) (s : Patching) (i : Nat) :
    let r := patchOne resolve fwDir false fault p s
    let targets := resolve (joinPath fwDir p.file) = some i
    (r.2 = false ∧ ((targets → encode p.line <:+: s.content i) ∧ Keeps resolve s r.1 i ∨
      targets ∧ ¬ encode p.line <:+: s.content i ∧
        r.1.content i = appendLine newline (s.content i) (encode p.line) ∧
        r.1.saved resolve i = s.saved resolve i ++ [s.content i])) ∨
    (r.2 = true ∧ (Keeps resolve s r.1 i ∨
      targets ∧ ¬ encode p.line <:+: s.content i ∧
        r.1.saved resolve i = s.saved resolve i ++ [s.content i])) := by
  intro r targets
  cases ht : resolve (joinPath fwDir p.file) with
  | none =>
    have hr : r.2 = false ∧ Keeps resolve s r.1 i := by
      simp only [r, patchOne, ht]
      exact ⟨trivial, rfl, rfl⟩
    exact .inl ⟨hr.1, .inl ⟨fun h => by simp [targets, ht] at h, hr.2⟩⟩
  | some j =>
    by_cases hread : fault = some .read
    · have hr : r = (s, true) := by simp [r, patchOne, ht, hread]
      rw [hr]
      exact .inr ⟨rfl, .inl ⟨rfl, rfl⟩⟩
    · by_cases hin : encode p.line <:+: s.content j
      · have hr : r.2 = false ∧ Keeps resolve s r.1 i := by
          rcases fault with _ | _ | n
          · simp [r, patchOne, ht, hin, Keeps]
          · exact absurd rfl hread
          · simp [r, patchOne, ht, hin, Keeps]
        refine .inl ⟨hr.1, .inl ⟨fun h => ?_, hr.2⟩⟩
        obtain rfl : j = i := by simpa [targets, ht] using h
        exact hin
      · by_cases hij : j = i
        · subst hij
          rcases fault with _ | _ | n
          · exact .inl (by simp [r, patchOne, ht, hin, targets, write_content, saved_backup_some])
          · exact absurd rfl hread
          · exact .inr (by simp [r, patchOne, ht, hin, targets, saved_backup_some])
        · rcases fault with _ | _ | n
          · exact .inl (by simp [r, patchOne, ht, hin, targets, write_content, saved_backup_some,
              Keeps, hij, Ne.symm hij])
          · exact absurd rfl hread
          · exact .inr (by simp [r, patchOne, ht, hin, write_content, saved_backup_some,
              Keeps, hij, Ne.symm hij])

theorem restore_content (s : Patching) (i : Nat) :
    (restore resolve s).content i = (s.saved resolve i).getLast?.getD (s.content i) := by
  have step (bs : List (Str × Option Bytes)) (t : Patching) :
      (bs.foldl (restoreOne resolve) t).content i =
        (bs.filterMap fun b => if resolve b.1 = some i then b.2 else none).getLast?.getD
          (t.content i) := by
    induction bs generalizing t with
    | nil => rfl
    | cons b bs ih =>
      obtain ⟨target, saved⟩ := b
      rw [List.foldl_cons, ih]
      cases saved with
      | none => simp [restoreOne]
      | some saved =>
        cases hr : resolve target with
        | none => simp [restoreOne, hr]
        | some j =>
          by_cases hij : j = i
          · subst hij
            simp [restoreOne, hr, write_content, List.getLast?_cons]
          · simp [restoreOne, hr, write_content, hij, Ne.symm hij]
  exact step s.backups s

theorem encode_line_ne_nil (h : p.isValid) : encode p.line ≠ [] := by
  refine encode_ne_nil fun hl => ?_
  simp [MakefilePatch.isValid, hl] at h

end Facts

/-- A patch's line is a whole line of its file already. -/
def Present (content : Nat → Bytes) (p : MakefilePatch) (i : Nat) : Prop :=
  encode p.line ∈ (content i).splitOn newline

/-- Every target exists; a line that is not there yet is one line, is no part of the
text that is, and is the only such line for its file. -/
structure Patchable (resolve : Str → Option Nat) (fwDir : Str) (dryRun : Bool)
    (patches : List MakefilePatch) (content : Nat → Bytes) : Prop where
  found : ∀ p ∈ patches, p.isValid → ∃ i, resolve (joinPath fwDir p.file) = some i
  clear : ∀ p ∈ patches, p.isValid → ∀ i, resolve (joinPath fwDir p.file) = some i →
    Present content p i ∨
      dryRun = false ∧ newline ∉ encode p.line ∧ ¬ encode p.line <:+: content i
  alone : ∀ p ∈ patches, p.isValid → ∀ q ∈ patches, q.isValid →
    ∀ i, resolve (joinPath fwDir p.file) = some i → resolve (joinPath fwDir q.file) = some i →
      ¬ Present content p i → ¬ Present content q i → encode p.line = encode q.line

section Forward
variable {resolve : Str → Option Nat} {fwDir : Str} {patches : List MakefilePatch}
  {content : Nat → Bytes}

/-- At most one line is added to a file, and its old contents are saved. -/
def AtMostOnce (resolve : Str → Option Nat) (fwDir : Str) (patches : List MakefilePatch)
    (content : Nat → Bytes) (s : Patching) (i : Nat) : Prop :=
  (s.saved resolve i = [] ∧ s.content i = content i) ∨
    ∃ q ∈ patches, q.isValid ∧ resolve (joinPath fwDir q.file) = some i ∧
      ¬ Present content q i ∧ newline ∉ encode q.line ∧ s.saved resolve i = [content i] ∧
      s.content i = appendLine newline (content i) (encode q.line)

/-- Restoring brings the file back. -/
def Restorable (resolve : Str → Option Nat) (content : Nat → Bytes) (s : Patching) (i : Nat) :
    Prop :=
  (s.saved resolve i = [] ∧ s.content i = content i) ∨ s.saved resolve i = [content i]

theorem AtMostOnce.restorable {s : Patching} {i : Nat}
    (h : AtMostOnce resolve fwDir patches content s i) : Restorable resolve content s i := by
  rcases h with h | ⟨q, -, -, -, -, -, h, -⟩
  · exact .inl h
  · exact .inr h

theorem Restorable.restored {s : Patching} {i : Nat} (h : Restorable resolve content s i) :
    (restore resolve s).content i = content i := by
  rw [restore_content]
  rcases h with ⟨h, hc⟩ | h
  · simp [h, hc]
  · simp [h]

theorem AtMostOnce.keeps {s s' : Patching} {i : Nat}
    (h : AtMostOnce resolve fwDir patches content s i) (hk : Keeps resolve s s' i) :
    AtMostOnce resolve fwDir patches content s' i := by
  unfold AtMostOnce
  rwa [hk.1, hk.2]

theorem AtMostOnce.present (hp : Patchable resolve fwDir false patches content)
    {s : Patching} {i : Nat} (h : AtMostOnce resolve fwDir patches content s i)
    {p : MakefilePatch} (hm : p ∈ patches) (hv : p.isValid)
    (ht : resolve (joinPath fwDir p.file) = some i) (hin : encode p.line <:+: s.content i) :
    encode p.line ∈ (s.content i).splitOn newline := by
  rcases h with ⟨-, hc⟩ | ⟨q, hq, hqv, hqt, hqp, hqn, -, hc⟩
  · rw [hc] at hin ⊢
    exact (hp.clear p hm hv i ht).resolve_right fun h => h.2.2 hin
  · rw [hc, mem_splitOn_appendLine (encode_line_ne_nil hv)]
    by_cases hpp : Present content p i
    · exact .inl hpp
    · rw [hp.alone p hm hv q hq hqv i ht hqt hpp hqp, List.splitOn_eq_singleton hqn]
      simp

theorem AtMostOnce.untouched (hp : Patchable resolve fwDir false patches content)
    {s : Patching} {i : Nat} (h : AtMostOnce resolve fwDir patches content s i)
    {p : MakefilePatch} (hm : p ∈ patches) (hv : p.isValid)
    (ht : resolve (joinPath fwDir p.file) = some i) (hin : ¬ encode p.line <:+: s.content i) :
    s.saved resolve i = [] ∧ s.content i = content i ∧ ¬ Present content p i := by
  rcases h with ⟨hs, hc⟩ | ⟨q, hq, hqv, hqt, hqp, -, -, hc⟩
  · refine ⟨hs, hc, fun hpp => hin ?_⟩
    rw [hc]
    exact isInfix_of_mem_splitOn hpp
  · exfalso
    rw [hc] at hin
    have hpp : ¬ Present content p i := fun hpp =>
      hin ((isInfix_of_mem_splitOn hpp).trans (prefix_appendLine _ _ _).isInfix)
    rw [hp.alone p hm hv q hq hqv i ht hqt hpp hqp] at hin
    exact hin (isInfix_appendLine _ _ _)

/-- One patch keeps a file at one added line, its own line is then there, and no line
goes; where it raises, the file can be restored. -/
theorem patchOne_forward (hp : Patchable resolve fwDir false patches content)
    (fault : Option Fault) {p : MakefilePatch} (hm : p ∈ patches) (hv : p.isValid)
    {s : Patching} {i : Nat} (h : AtMostOnce resolve fwDir patches content s i) :
    let r := patchOne resolve fwDir false fault p s
    (r.2 = false ∧ AtMostOnce resolve fwDir patches content r.1 i ∧
      (resolve (joinPath fwDir p.file) = some i →
        encode p.line ∈ (r.1.content i).splitOn newline) ∧
      ∀ l ≠ [], l ∈ (s.content i).splitOn newline → l ∈ (r.1.content i).splitOn newline) ∨
    (r.2 = true ∧ Restorable resolve content r.1 i) := by
  intro r
  rcases patchOne_cases fault p s i with ⟨hr, ⟨hin, hk⟩ | ⟨ht, hin, hc, hs⟩⟩ |
    ⟨hr, hk | ⟨ht, hin, hs⟩⟩
  · refine .inl ⟨hr, h.keeps hk, fun ht => ?_, fun l _ hl => ?_⟩
    · rw [hk.1]
      exact h.present hp hm hv ht (hin ht)
    · rwa [hk.1]
  · obtain ⟨hsaved, hcontent, hpp⟩ := h.untouched hp hm hv ht hin
    obtain ⟨-, hn, -⟩ := (hp.clear p hm hv i ht).resolve_left hpp
    rw [hcontent] at hc hs
    rw [hsaved] at hs
    refine .inl ⟨hr, .inr ⟨p, hm, hv, ht, hpp, hn, hs, hc⟩, fun _ => ?_, fun l hl h => ?_⟩
    · rw [hc, mem_splitOn_appendLine (encode_line_ne_nil hv), List.splitOn_eq_singleton hn]
      simp
    · rw [hc, mem_splitOn_appendLine hl]
      exact .inl (hcontent ▸ h)
  · exact .inr ⟨hr, (h.keeps hk).restorable⟩
  · obtain ⟨hsaved, hcontent, -⟩ := h.untouched hp hm hv ht hin
    rw [hsaved, hcontent] at hs
    exact .inr ⟨hr, .inr hs⟩

theorem patchAll_forward (hp : Patchable resolve fwDir false patches content)
    (fault : Nat → Option Fault) (k : Nat) (ps : List MakefilePatch)
    (hps : ∀ p ∈ ps, p ∈ patches ∧ p.isValid) {s : Patching}
    (h : ∀ i, AtMostOnce resolve fwDir patches content s i) :
    let r := patchAll resolve fwDir false fault k ps s
    (r.2 = false → ∀ i, AtMostOnce resolve fwDir patches content r.1 i ∧
      (∀ p ∈ ps, resolve (joinPath fwDir p.file) = some i →
        encode p.line ∈ (r.1.content i).splitOn newline) ∧
      ∀ l ≠ [], l ∈ (s.content i).splitOn newline → l ∈ (r.1.content i).splitOn newline) ∧
    (r.2 = true → ∀ i, Restorable resolve content r.1 i) := by
  induction ps generalizing k s with
  | nil => exact ⟨fun _ i => ⟨h i, by simp, fun _ _ hl => hl⟩, fun hr => by cases hr⟩
  | cons p ps ih =>
    have hone := fun i => patchOne_forward hp (fault k) (hps p (by simp)).1 (hps p (by simp)).2 (h i)
    cases hr : patchOne resolve fwDir false (fault k) p s with
    | mk s' raised =>
      simp only [hr] at hone
      cases raised with
      | true =>
        simp only [patchAll, hr]
        refine ⟨fun hf => (by cases hf), fun _ i => ?_⟩
        rcases hone i with ⟨hf, -⟩ | ⟨-, hi⟩
        · cases hf
        · exact hi
      | false =>
        have hone' := fun i => ((hone i).resolve_right fun hf => by cases hf.1).2
        obtain ⟨hdone, hraised⟩ := ih (k + 1) (fun q hq => hps q (by simp [hq]))
          fun i => (hone' i).1
        simp only [patchAll, hr]
        refine ⟨fun hf i => ?_, hraised⟩
        obtain ⟨ha, hl, hk⟩ := hdone hf i
        refine ⟨ha, fun q hq ht => ?_, fun l hne hl' => hk l hne ((hone' i).2.2 l hne hl')⟩
        rcases List.mem_cons.mp hq with rfl | hq
        · exact hk _ (encode_line_ne_nil (hps q (by simp)).2) ((hone' i).2.1 ht)
        · exact hl q hq ht

theorem transparent_of_patchable (hp : Patchable resolve fwDir false patches content) :
    Transparent resolve fwDir false patches content := by
  intro fault bodyRaises
  have hps : ∀ p ∈ patches.filter (·.isValid), p ∈ patches ∧ p.isValid := fun p hm =>
    List.mem_filter.mp hm
  obtain ⟨hdone, hraised⟩ := patchAll_forward hp fault 0 _ hps (s := { content })
    fun i => .inl ⟨rfl, rfl⟩
  cases hr : patchAll resolve fwDir false fault 0 (patches.filter (·.isValid)) { content } with
  | mk s raised =>
    rw [hr] at hdone hraised
    cases raised with
    | false =>
      simp only [makefilePatches, hr]
      refine ⟨?_, funext fun i => (hdone rfl i).1.restorable.restored⟩
      rintro c ⟨⟩ p hm hv
      obtain ⟨i, ht⟩ := hp.found p hm hv
      exact ⟨i, ht, (hdone rfl i).2.1 p (List.mem_filter.mpr ⟨hm, hv⟩) ht⟩
    | true =>
      simp only [makefilePatches, hr]
      exact ⟨fun c hc => (by cases hc), funext fun i => (hraised rfl i).restored⟩

end Forward

theorem patchOne_quiet (resolve : Str → Option Nat) (fwDir : Str) (dryRun : Bool)
    (p : MakefilePatch) (s : Patching) :
    (patchOne resolve fwDir dryRun none p s).2 = false := by
  cases ht : resolve (joinPath fwDir p.file) with
  | none => simp [patchOne, ht]
  | some i =>
    by_cases hin : encode p.line <:+: s.content i <;> cases dryRun <;> simp [patchOne, ht, hin]

section Backward
variable {resolve : Str → Option Nat} {fwDir : Str} {patches : List MakefilePatch}
  {content : Nat → Bytes}

/-- A file after patches that did not raise: untouched, with one line added that was no
part of it, or restored from contents it did not have. -/
def Grown (resolve : Str → Option Nat) (fwDir : Str) (patches : List MakefilePatch)
    (content : Nat → Bytes) (s : Patching) (i : Nat) : Prop :=
  (s.saved resolve i = [] ∧ s.content i = content i) ∨
    (∃ q ∈ patches, q.isValid ∧ resolve (joinPath fwDir q.file) = some i ∧
      ¬ encode q.line <:+: content i ∧ s.saved resolve i = [content i] ∧
      s.content i = appendLine newline (content i) (encode q.line)) ∨
    ((content i).length < (s.content i).length ∧
      ∃ b, (s.saved resolve i).getLast? = some b ∧ (content i).length < b.length)

theorem patchOne_grown {p : MakefilePatch} (hm : p ∈ patches) (hv : p.isValid)
    {s : Patching} {i : Nat} (h : Grown resolve fwDir patches content s i) :
    Grown resolve fwDir patches content (patchOne resolve fwDir false none p s).1 i := by
  rcases patchOne_cases none p s i with ⟨-, ⟨-, hk⟩ | ⟨ht, hin, hc, hs⟩⟩ | ⟨hr, -⟩
  · unfold Grown
    rwa [hk.1, hk.2]
  · have hlong := length_lt_appendLine newline (s.content i) (encode p.line)
    rcases h with ⟨hs', hc'⟩ | ⟨q, -, -, -, -, -, hc'⟩ | ⟨hlen, -⟩
    · rw [hc'] at hin hc hs
      rw [hs'] at hs
      exact .inr (.inl ⟨p, hm, hv, ht, hin, hs, hc⟩)
    · have hfirst := length_lt_appendLine newline (content i) (encode q.line)
      rw [← hc'] at hfirst
      refine .inr (.inr ⟨?_, s.content i, by simp [hs], hfirst⟩)
      rw [hc]
      omega
    · refine .inr (.inr ⟨?_, s.content i, by simp [hs], hlen⟩)
      rw [hc]
      omega
  · rw [patchOne_quiet] at hr
    cases hr

theorem patchAll_grown (k : Nat) (ps : List MakefilePatch)
    (hps : ∀ p ∈ ps, p ∈ patches ∧ p.isValid) {s : Patching}
    (h : ∀ i, Grown resolve fwDir patches content s i) :
    let r := patchAll resolve fwDir false (fun _ => none) k ps s
    r.2 = false ∧ ∀ i, Grown resolve fwDir patches content r.1 i := by
  induction ps generalizing k s with
  | nil => exact ⟨rfl, h⟩
  | cons p ps ih =>
    have hone := fun i => patchOne_grown (hps p (by simp)).1 (hps p (by simp)).2 (h i)
    have hq := patchOne_quiet resolve fwDir false p s
    cases hr : patchOne resolve fwDir false none p s with
    | mk s' raised =>
      rw [hr] at hone hq
      obtain rfl : raised = false := hq
      simp only [patchAll, hr]
      exact ih (k + 1) (fun q hm => hps q (by simp [hm])) hone

/-- The one line that may be new to a file, where patching it is transparent. -/
theorem Grown.line {s : Patching} {i : Nat} (h : Grown resolve fwDir patches content s i)
    (hback : (restore resolve s).content i = content i)
    (hin : ∀ p ∈ patches, p.isValid → resolve (joinPath fwDir p.file) = some i →
      encode p.line ∈ (s.content i).splitOn newline) :
    ∃ l, ∀ p ∈ patches, p.isValid → resolve (joinPath fwDir p.file) = some i →
      Present content p i ∨ encode p.line = l ∧ newline ∉ l ∧ ¬ l <:+: content i := by
  rcases h with ⟨-, hc⟩ | ⟨q, hq, hqv, hqt, hqi, -, hc⟩ | ⟨-, b, hb, hlen⟩
  · refine ⟨[], fun p hm hv ht => .inl ?_⟩
    rw [Present, ← hc]
    exact hin p hm hv ht
  · refine ⟨encode q.line, fun p hm hv ht => ?_⟩
    have hn := eol_notMem_of_mem_splitOn (hin q hq hqv hqt)
    have hp := hin p hm hv ht
    rw [hc, mem_splitOn_appendLine (encode_line_ne_nil hv), List.splitOn_eq_singleton hn] at hp
    rcases hp with hp | hp
    · exact .inl hp
    · exact .inr ⟨by simpa using hp, hn, hqi⟩
  · rw [restore_content, hb] at hback
    rw [← hback] at hlen
    simp at hlen

theorem patchable_of_transparent (h : Transparent resolve fwDir false patches content) :
    Patchable resolve fwDir false patches content := by
  have hps : ∀ p ∈ patches.filter (·.isValid), p ∈ patches ∧ p.isValid := fun p hm =>
    List.mem_filter.mp hm
  obtain ⟨hq, hg⟩ := patchAll_grown 0 _ hps (s := { content }) fun i => .inl ⟨rfl, rfl⟩
  obtain ⟨hentry, hexit⟩ := h (fun _ => none) false
  cases hr : patchAll resolve fwDir false (fun _ => none) 0 (patches.filter (·.isValid))
      { content } with
  | mk s raised =>
    rw [hr] at hq hg
    obtain rfl : raised = false := hq
    simp only [makefilePatches, hr] at hentry hexit
    have hline := fun i => (hg i).line (congrFun hexit i) fun p hm hv ht => by
      obtain ⟨j, hj, hl⟩ := hentry _ rfl p hm hv
      obtain rfl : j = i := by simpa [ht] using hj.symm
      exact hl
    refine ⟨fun p hm hv => ?_, fun p hm hv i ht => ?_, fun p hm hv q hm' hv' i ht ht' hn hn' => ?_⟩
    · obtain ⟨i, ht, -⟩ := hentry _ rfl p hm hv
      exact ⟨i, ht⟩
    · obtain ⟨l, hl⟩ := hline i
      rcases hl p hm hv ht with hp | ⟨rfl, hnl, hin⟩
      · exact .inl hp
      · exact .inr ⟨rfl, hnl, hin⟩
    · obtain ⟨l, hl⟩ := hline i
      obtain ⟨hp, -⟩ := (hl p hm hv ht).resolve_left hn
      obtain ⟨hq, -⟩ := (hl q hm' hv' ht').resolve_left hn'
      rw [hp, hq]

end Backward

theorem patchAll_dryRun (resolve : Str → Option Nat) (fwDir : Str) (fault : Nat → Option Fault)
    (k : Nat) (ps : List MakefilePatch) (s : Patching) :
    let r := patchAll resolve fwDir true fault k ps s
    r.2 = false ∧ r.1.content = s.content ∧ r.1.backups = s.backups := by
  induction ps generalizing k s with
  | nil => exact ⟨rfl, rfl, rfl⟩
  | cons p ps ih =>
    cases ht : resolve (joinPath fwDir p.file) with
    | none =>
      simp only [patchAll, patchOne, ht]
      exact ih _ _
    | some i =>
      simp only [patchAll, patchOne, ht, if_true]
      exact ih _ _

theorem transparent_dryRun_iff (resolve : Str → Option Nat) (fwDir : Str)
    (patches : List MakefilePatch) (content : Nat → Bytes) :
    Transparent resolve fwDir true patches content ↔
      Patchable resolve fwDir true patches content := by
  have hpass (fault : Nat → Option Fault) (bodyRaises : Bool) :
      makefilePatches resolve fwDir true patches fault bodyRaises content =
        ⟨some content, content, bodyRaises⟩ := by
    obtain ⟨hr, hc, hb⟩ := patchAll_dryRun resolve fwDir fault 0 (patches.filter (·.isValid))
      { content }
    cases hp : patchAll resolve fwDir true fault 0 (patches.filter (·.isValid)) { content } with
    | mk s raised =>
      rw [hp] at hr hc hb
      obtain rfl : raised = false := hr
      have hrestore : (restore resolve s).content = content := by
        rw [restore, show s.backups = [] from hb]
        exact hc
      simp only [makefilePatches, hp, hrestore]
      rw [show s.content = content from hc]
  constructor
  · intro h
    have hentry := (h (fun _ => none) false).1
    rw [hpass] at hentry
    have hall : ∀ p ∈ patches, p.isValid → ∀ i, resolve (joinPath fwDir p.file) = some i →
        Present content p i := fun p hm hv i ht => by
      obtain ⟨j, hj, hl⟩ := hentry _ rfl p hm hv
      obtain rfl : j = i := by simpa [ht] using hj.symm
      exact hl
    refine ⟨fun p hm hv => ?_, fun p hm hv i ht => .inl (hall p hm hv i ht),
      fun p hm hv _ _ _ i ht _ hn _ => absurd (hall p hm hv i ht) hn⟩
    obtain ⟨i, ht, -⟩ := hentry _ rfl p hm hv
    exact ⟨i, ht⟩
  · intro h fault bodyRaises
    simp only [hpass]
    refine ⟨?_, trivial⟩
    rintro c ⟨⟩ p hm hv
    obtain ⟨i, ht⟩ := h.found p hm hv
    exact ⟨i, ht, (h.clear p hm hv i ht).resolve_right fun hd => by cases hd.1⟩

/-- Patching is transparent exactly when the patches and the files they meet are
`Patchable`. -/
theorem transparent_iff_patchable (resolve : Str → Option Nat) (fwDir : Str) (dryRun : Bool)
    (patches : List MakefilePatch) (content : Nat → Bytes) :
    Transparent resolve fwDir dryRun patches content ↔
      Patchable resolve fwDir dryRun patches content := by
  cases dryRun with
  | false => exact ⟨patchable_of_transparent, transparent_of_patchable⟩
  | true => exact transparent_dryRun_iff resolve fwDir patches content

/-- Two patches of one file: the second backup is taken from the patched file and is
restored last, so the first line stays behind. -/
theorem two_patches_leave_a_line :
    ∃ (patches : List MakefilePatch) (content : Nat → Bytes),
      (makefilePatches (fun _ => some 0) "klipper".toList false patches (fun _ => none) false
        content).exited ≠ content ∧
      ¬ Transparent (fun _ => some 0) "klipper".toList false patches content := by
  refine ⟨[⟨"src/Makefile".toList, "a".toList⟩, ⟨"src/Makefile".toList, "b".toList⟩],
    fun _ => [], ?_, ?_⟩
  · intro h
    exact absurd (congrFun h 0) (by decide)
  · intro h
    exact absurd (congrFun (h (fun _ => none) false).2 0) (by decide)

end McuUpdater.Build
