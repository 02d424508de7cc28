import McuUpdater.Lib.Notes
import McuUpdater.Registry.CfgValues
import McuUpdater.Registry.Removal

/-! The comments of an option that `set` rewrites: where they stood, and which of them
`_decoration` and `_render` carry over. -/
namespace McuUpdater.CfgDoc
open PyText Outline Notes

/-- A comment by the line of the option it stands on: no line has two. -/
structure Comment where
  line : Nat
  text : Str
  deriving DecidableEq

instance : Preorder Comment := Preorder.lift Comment.line

theorem Comment.lt_iff {c d : Comment} : c < d ↔ c.line < d.line := Iff.rfl

def commentAfter (text : Str) : Str := strip (text.drop (stripInlineComment text).length)

def commentOn (n : Nat) (text : Str) : Option Comment :=
  if commentAfter text = [] then none else some ⟨n, commentAfter text⟩

/-- The items on the lines from `n` on, with the comments above and beside each, and the comments
left over; those of `waiting` are above the first item. -/
def rowsFrom (n : Nat) (waiting : List Comment) : List Str → List (Row Str Comment) × List Comment
  | [] => ([], waiting)
  | raw :: lines =>
    let text := strip raw
    if text = [] then rowsFrom (n + 1) waiting lines
    else if isComment raw then rowsFrom (n + 1) (waiting ++ [⟨n, text⟩]) lines
    else
      let item := stripInlineComment text
      if item = [] then rowsFrom (n + 1) waiting lines
      else
        let rest := rowsFrom (n + 1) [] lines
        (⟨waiting, item, commentOn n text⟩ :: rest.1, rest.2)

def rowsOf (option : Block Str) : List (Row Str Comment) := (rowsFrom 1 [] option.body).1

def trailingOf (option : Block Str) : List Comment := (rowsFrom 1 [] option.body).2

def keyComment (option : Block Str) : Option Comment :=
  commentOn 0 (strip ((option.head.dropWhile fun d => d ≠ ':' && d ≠ '=').drop 1))

/-- `_render` writes a block. -/
def Value.isBlock : Value → Bool
  | .list _ => true
  | .text s => '\n' ∈ s

/-- The items `_render` writes. -/
def Value.newItems : Value → List Str
  | .list items => items.filter (strip · ≠ [])
  | .text s => if '\n' ∈ s then listOf s else [s]

/-- An item is still there as it was given, or as it is read back. -/
def Value.present (value : Value) : List Str := value.newItems ++ value.newItems.map reads

/-- The comments of the key line, of the items still there and of no item. -/
def owedComments (option : Block Str) (value : Value) : List Comment :=
  (keyComment option).toList ++ owed (rowsOf option) (trailingOf option) value.present

/-- The lines `block` writes under the key. -/
inductive Piece
  | comment (c : Comment)
  | item (text : Str) (beside : Option Comment)

def Piece.line : Piece → Str
  | .comment c => indent ++ c.text
  | .item text beside => indent ++ text ++ (beside.map fun c => "  ".toList ++ c.text).getD []

def Piece.comments : Piece → List Comment
  | .comment c => [c]
  | .item _ beside => beside.toList

def pieces (option : Block Str) (items : List Str) : List Piece :=
  if items = [] then []
  else items.flatMap (fun i => (lastAbove (noted (rowsOf option) i)).map .comment ++
      [.item i (lastBeside (noted (rowsOf option) i))]) ++
    (trailingOf option).map .comment

/-- The comments of the option that stand in the lines written for it. -/
def carriedComments (option : Block Str) (value : Value) : List Comment :=
  if value.isBlock then (pieces option value.newItems).flatMap Piece.comments
  else if option.body = [] then
    (keyComment option).toList.filter (·.text <:+ trailingComment (some option))
  else []

def CommentsKept (option : Block Str) (value : Value) : Prop :=
  (owedComments option value).Sublist (carriedComments option value) ∧
    (carriedComments option value).Nodup

/-- When the comments are kept: in a block that is written, no comment is on the key line and the
items with comments follow the old ones; on one line, neither of the two splits `_render` makes
is in the comment of the line. -/
def KeepsComments (option : Block Str) (value : Value) : Prop :=
  if value.isBlock ∧ value.newItems ≠ [] then
    keyComment option = none ∧ Follows (rowsOf option) value.present value.newItems
  else if ¬value.isBlock ∧ option.body = [] then
    ∀ c, keyComment option = some c →
      c.text <:+ rstrip (afterFirst '=' (afterFirst ':' option.head))
  else owedComments option value = []

/-! ## What a block is rewritten to -/

section Rows
variable {n : Nat} {waiting : List Comment} {lines : List Str} {d : Decoration} {option : Block Str}

theorem line_of_commentOn {text : Str} {c : Comment} (h : commentOn n text = some c) :
    c.line = n := by
  rw [commentOn] at h
  split_ifs at h
  obtain rfl := Option.some.inj h
  rfl

theorem lookup_cons_pair {β : Type*} (i j : Str) (v : β) (l : List (Str × β)) :
    ((j, v) :: l).lookup i = if j = i then some v else l.lookup i := by
  by_cases h : j = i
  · simp [h]
  · have hne : (i == j) = false := by simpa using Ne.symm h
    rw [List.lookup_cons, hne, if_neg h]

theorem rowsFrom_item {raw : Str} (htext : strip raw ≠ []) (hcomment : isComment raw ≠ true)
    (hitem : stripInlineComment (strip raw) ≠ []) : rowsFrom n waiting (raw :: lines) =
      (⟨waiting, stripInlineComment (strip raw), commentOn n (strip raw)⟩ ::
        (rowsFrom (n + 1) [] lines).1, (rowsFrom (n + 1) [] lines).2) := by
  rw [rowsFrom, if_neg htext, if_neg hcomment, if_neg hitem]

/-- The fold of `_decoration` holds the last comments of each item. -/
theorem foldl_decoration (hwait : d.pending = waiting.map Comment.text) :
    (lines.foldl Decoration.line d).pending = (rowsFrom n waiting lines).2.map Comment.text ∧
    (∀ i, (lines.foldl Decoration.line d).inline.lookup i =
      ((lastBeside (noted (rowsFrom n waiting lines).1 i)).map Comment.text).or
        (d.inline.lookup i)) ∧
    ∀ i, (lines.foldl Decoration.line d).before.lookup i =
      if lastAbove (noted (rowsFrom n waiting lines).1 i) = [] then d.before.lookup i
      else some ((lastAbove (noted (rowsFrom n waiting lines).1 i)).map Comment.text) := by
  induction lines generalizing n waiting d with
  | nil => exact ⟨hwait, fun i => rfl, fun i => rfl⟩
  | cons raw lines ih =>
    rw [List.foldl_cons]
    by_cases htext : strip raw = []
    · simpa [rowsFrom, Decoration.line, htext] using ih hwait
    by_cases hcomment : isComment raw = true
    · simpa [rowsFrom, Decoration.line, htext, hcomment] using
        @ih (n + 1) (waiting ++ [⟨n, strip raw⟩])
          { d with pending := d.pending ++ [strip raw] } (by simp [hwait])
    by_cases hitem : stripInlineComment (strip raw) = []
    · simpa [rowsFrom, Decoration.line, htext, hcomment, hitem] using ih hwait
    rw [rowsFrom_item htext hcomment hitem]
    have hline : d.line raw =
        { inline := if commentAfter (strip raw) = [] then d.inline
            else (stripInlineComment (strip raw), commentAfter (strip raw)) :: d.inline
          before := if d.pending = [] then d.before
            else (stripInlineComment (strip raw), d.pending) :: d.before
          pending := [] } := by
      rw [Decoration.line, if_neg htext, if_neg hcomment, if_neg hitem]
      rfl
    have hin : ∀ i, (d.line raw).inline.lookup i = if commentAfter (strip raw) ≠ [] ∧
        stripInlineComment (strip raw) = i then some (commentAfter (strip raw))
        else d.inline.lookup i := by
      intro i
      rw [hline]
      by_cases hc : commentAfter (strip raw) = [] <;> simp [hc, lookup_cons_pair]
    have hbef : ∀ i, (d.line raw).before.lookup i = if waiting ≠ [] ∧
        stripInlineComment (strip raw) = i then some (waiting.map Comment.text)
        else d.before.lookup i := by
      intro i
      rw [hline, hwait]
      by_cases hw : waiting = [] <;> simp [hw, lookup_cons_pair]
    obtain ⟨hpending, hinline, hbefore⟩ := @ih (n + 1) [] (d.line raw) (by simp [hline])
    refine ⟨hpending, fun i => ?_, fun i => ?_⟩
    · rw [hinline, hin, lastBeside_noted_cons, Option.map_or, Option.or_assoc]
      by_cases hi : stripInlineComment (strip raw) = i
      · by_cases hc : commentAfter (strip raw) = [] <;> simp [hi, hc, commentOn]
      · simp [hi]
    · rw [hbefore, hbef, lastAbove_noted_cons]
      by_cases hnone : lastAbove (noted (rowsFrom (n + 1) [] lines).1 i) = []
      · by_cases hi : stripInlineComment (strip raw) = i
        · by_cases hw : waiting = [] <;> simp [hnone, hi, hw]
        · simp [hnone, hi]
      · simp [hnone]

theorem itemLines_eq (option : Block Str) (i : Str) : (decoration (some option)).itemLines i =
    ((lastAbove (noted (rowsOf option) i)).map Piece.comment ++
      [Piece.item i (lastBeside (noted (rowsOf option) i))]).map Piece.line := by
  obtain ⟨-, hinline, hbefore⟩ :=
    @foldl_decoration 1 [] option.body {} rfl
  rw [Decoration.itemLines, decoration, hinline, hbefore]
  by_cases h : lastAbove (noted (rowsOf option) i) = []
  · rw [rowsOf] at h
    simp [rowsOf, h, Piece.line, Option.map_map, Function.comp_def]
  · rw [rowsOf] at h
    simp [rowsOf, h, Piece.line, Option.map_map, Function.comp_def]

theorem renderBlock_eq (key : Str) (option : Block Str) (items : List Str) :
    renderBlock key (decoration (some option)) items =
      ⟨key ++ [':'], (pieces option items).map Piece.line⟩ := by
  have htrail : (decoration (some option)).pending = (trailingOf option).map Comment.text :=
    (@foldl_decoration 1 [] option.body {} rfl).1
  have hitems : (decoration (some option)).itemLines = fun i =>
      ((lastAbove (noted (rowsOf option) i)).map Piece.comment ++
        [Piece.item i (lastBeside (noted (rowsOf option) i))]).map Piece.line :=
    funext (itemLines_eq option)
  rw [renderBlock, pieces, htrail, hitems]
  split_ifs
  · rfl
  · simp [List.map_flatMap, Piece.line, Function.comp_def]

theorem comments_pieces (option : Block Str) (items : List Str) :
    (pieces option items).flatMap Piece.comments =
      if items = [] then [] else rewritten (rowsOf option) (trailingOf option) items := by
  have hcomments : ∀ cs : List Comment, (cs.map Piece.comment).flatMap Piece.comments = cs :=
    fun cs => by simp [List.flatMap_map, Piece.comments]
  rw [pieces]
  split_ifs
  · rfl
  · simp only [rewritten, List.flatMap_append, List.flatMap_assoc, hcomments, kept,
      List.flatMap_singleton]
    rfl

theorem rowsFrom_sorted (sorted : waiting.Pairwise (· < ·)) (above : ∀ c ∈ waiting, c.line < n) :
    (notesOf (rowsFrom n waiting lines).1 ++ (rowsFrom n waiting lines).2).Pairwise (· < ·) ∧
    ∀ c ∈ notesOf (rowsFrom n waiting lines).1 ++ (rowsFrom n waiting lines).2,
      c ∈ waiting ∨ n ≤ c.line := by
  induction lines generalizing n waiting with
  | nil => exact ⟨sorted, fun c hc => .inl hc⟩
  | cons raw lines ih =>
    have next : ∀ c ∈ waiting, c.line < n + 1 := fun c hc => (above c hc).trans (Nat.lt_succ_self n)
    have skipped := ih sorted next
    have weaken : ∀ c : Comment, c ∈ waiting ∨ n + 1 ≤ c.line → c ∈ waiting ∨ n ≤ c.line :=
      fun c h => h.imp_right Nat.le_of_succ_le
    by_cases htext : strip raw = []
    · rw [rowsFrom, if_pos htext]
      exact ⟨skipped.1, fun c hc => weaken c (skipped.2 c hc)⟩
    by_cases hcomment : isComment raw = true
    · rw [rowsFrom, if_neg htext, if_pos hcomment]
      have one : (waiting ++ [(⟨n, strip raw⟩ : Comment)]).Pairwise (· < ·) :=
        List.pairwise_append.2 ⟨sorted, List.pairwise_singleton _ _, fun c hc d hd => by
          obtain rfl := List.mem_singleton.1 hd
          exact Comment.lt_iff.2 (above c hc)⟩
      obtain ⟨hsorted, hlines⟩ := ih (n := n + 1) one fun c hc => by
        rcases List.mem_append.1 hc with hc | hc
        · exact next c hc
        · obtain rfl := List.mem_singleton.1 hc
          exact Nat.lt_succ_self n
      refine ⟨hsorted, fun c hc => ?_⟩
      rcases hlines c hc with h | h
      · rcases List.mem_append.1 h with h | h
        · exact .inl h
        · obtain rfl := List.mem_singleton.1 h
          exact .inr (le_refl n)
      · exact .inr (Nat.le_of_succ_le h)
    by_cases hitem : stripInlineComment (strip raw) = []
    · rw [rowsFrom, if_neg htext, if_neg hcomment, if_pos hitem]
      exact ⟨skipped.1, fun c hc => weaken c (skipped.2 c hc)⟩
    rw [rowsFrom_item htext hcomment hitem]
    obtain ⟨hsorted, hlines⟩ := @ih (n + 1) [] .nil (by simp)
    have later : ∀ c ∈ notesOf (rowsFrom (n + 1) [] lines).1 ++ (rowsFrom (n + 1) [] lines).2,
        n + 1 ≤ c.line := fun c hc => (hlines c hc).resolve_left List.not_mem_nil
    have beside : ∀ c ∈ (commentOn n (strip raw)).toList, c.line = n :=
      fun c hc => line_of_commentOn (Option.mem_toList.1 hc)
    rw [notesOf, List.flatMap_cons, List.append_assoc, Row.notes]
    dsimp only
    refine ⟨List.pairwise_append.2 ⟨List.pairwise_append.2 ⟨sorted, ?_, fun c hc d hd => ?_⟩,
      hsorted, fun c hc d hd => ?_⟩, fun c hc => ?_⟩
    · cases commentOn n (strip raw) with
      | none => exact .nil
      | some c => exact List.pairwise_singleton _ _
    · exact Comment.lt_iff.2 ((above c hc).trans_eq (beside d hd).symm)
    · refine Comment.lt_iff.2 (Nat.lt_of_lt_of_le ?_ (later d hd))
      rcases List.mem_append.1 hc with hc | hc
      · exact next c hc
      · exact (beside c hc).trans_lt (Nat.lt_succ_self n)
    · rcases List.mem_append.1 hc with hc | hc
      · rcases List.mem_append.1 hc with hc | hc
        · exact .inl hc
        · exact .inr (beside c hc).ge
      · exact .inr (Nat.le_of_succ_le (later c hc))

theorem rowsOf_sorted (option : Block Str) :
    (notesOf (rowsOf option) ++ trailingOf option).Pairwise (· < ·) ∧
    ∀ c ∈ notesOf (rowsOf option) ++ trailingOf option, 1 ≤ c.line := by
  obtain ⟨hsorted, hlines⟩ := @rowsFrom_sorted 1 [] option.body .nil (by simp)
  exact ⟨hsorted, fun c hc => (hlines c hc).resolve_left List.not_mem_nil⟩

end Rows

/-! ## A comment on one line -/

section Line
variable {s t x y : Str} {c : Char} {b : Bool} {option : Block Str}

/-- A comment sign may follow: at a start that `b` allows, or after whitespace. -/
def signMayFollow (b : Bool) (x : Str) : Bool := (x.getLast?.map isSpace).getD b

theorem signMayFollow_cons (b : Bool) (c : Char) (x : Str) :
    signMayFollow b (c :: x) = signMayFollow (isSpace c) x := by
  cases x with
  | nil => rfl
  | cons d x => simp [signMayFollow, List.getLast?_cons]

/-- A text ends at its value or goes on with a comment that may stand there. -/
theorem cutComment_comment (b : Bool) (s : Str) : ∃ rest, s = cutComment b s ++ rest ∧
    (rest = [] ∨ rest.head?.any isCommentStart = true ∧ toEnd rest = true ∧
      signMayFollow b (cutComment b s) = true) := by
  induction s generalizing b with
  | nil => exact ⟨[], rfl, .inl rfl⟩
  | cons c s ih =>
    rw [cutComment]
    split_ifs with h
    · simp only [Bool.and_eq_true] at h
      exact ⟨c :: s, rfl, .inr ⟨by simpa using h.1.2, h.2, by simpa [signMayFollow] using h.1.1⟩⟩
    · obtain ⟨rest, hs, hrest⟩ := ih (isSpace c)
      refine ⟨rest, by rw [List.cons_append, ← hs], hrest.imp_right fun h => ?_⟩
      rwa [signMayFollow_cons]

theorem length_cutComment_le (hsign : isCommentStart c = true) (hend : toEnd (c :: t) = true)
    (hmay : signMayFollow b x = true) : (cutComment b (x ++ c :: t)).length ≤ x.length := by
  induction x generalizing b with
  | nil =>
    have hb : b = true := hmay
    simp [cutComment, hb, hsign, hend]
  | cons d x ih =>
    rw [signMayFollow_cons] at hmay
    rw [List.cons_append, cutComment]
    split_ifs
    · exact Nat.zero_le _
    · exact Nat.succ_le_succ (ih hmay)

theorem rstrip_append_of_ne (h : rstrip t ≠ []) (s : Str) : rstrip (s ++ t) = s ++ rstrip t := by
  induction s with
  | nil => rfl
  | cons c s ih =>
    rw [List.cons_append, rstrip_cons, ih]
    simp [h]

theorem rstrip_isSuffix (h : s <:+ t) : rstrip s <:+ rstrip t := by
  obtain ⟨u, rfl⟩ := h
  by_cases hs : rstrip s = []
  · exact hs ▸ List.nil_suffix
  · exact ⟨u, (rstrip_append_of_ne hs u).symm⟩

/-- The comment after the value of a text, where it stands. -/
theorem commentAfter_spec (hs : Trimmed s) (hne : commentAfter s ≠ []) : ∃ x,
    s = x ++ commentAfter s ∧ (commentAfter s).head?.any isCommentStart = true ∧
      signMayFollow true x = true := by
  obtain ⟨rest, hcut, hrest⟩ := cutComment_comment true s
  obtain ⟨sp, hsp, hblank⟩ := rstrip_append_space (cutComment true s)
  have hdrop : s.drop (stripInlineComment s).length = sp ++ rest := by
    have hwhole : s = stripInlineComment s ++ (sp ++ rest) := by
      rw [← List.append_assoc, stripInlineComment, ← hsp, ← hcut]
    calc s.drop (stripInlineComment s).length
        = (stripInlineComment s ++ (sp ++ rest)).drop (stripInlineComment s).length := by
          rw [← hwhole]
      _ = sp ++ rest := List.drop_left
  have hcomment : commentAfter s = strip rest := by
    rw [commentAfter, hdrop, strip, lstrip_append_of_space hblank]
    rfl
  rcases hrest with rfl | ⟨hhead, -, hmay⟩
  · exact absurd hcomment hne
  · have hwhole : strip rest = rest := by
      refine strip_of_trimmed ⟨fun c hc => ?_, fun c hc => hs.2 c ?_⟩
      · rw [Option.mem_def.1 hc] at hhead
        exact not_space_of_isCommentStart hhead
      · rw [hcut, List.getLast?_append, Option.mem_def.1 hc]
        rfl
    rw [hcomment, hwhole]
    exact ⟨_, hcut, hhead, hmay⟩

theorem signMayFollow_of_isSuffix (h : y <:+ x) (hx : signMayFollow true x = true) :
    signMayFollow true y = true := by
  obtain ⟨z, rfl⟩ := h
  cases hy : y.getLast? with
  | none => simp [signMayFollow, hy]
  | some c => simpa [signMayFollow, List.getLast?_append, hy] using hx

theorem signMayFollow_append (hs : ∀ c ∈ s, isSpace c = true) (hx : signMayFollow true x = true) :
    signMayFollow true (s ++ x) = true := by
  cases hlast : x.getLast? with
  | some c => simpa [signMayFollow, List.getLast?_append, hlast] using hx
  | none =>
    cases hl : s.getLast? with
    | none => simp [signMayFollow, List.getLast?_append, hlast, hl]
    | some c =>
      have := hs c (List.mem_of_getLast? hl)
      simpa [signMayFollow, List.getLast?_append, hlast, hl] using this

theorem rstrip_eq_append_strip (h : strip s ≠ []) : ∃ lead, (∀ c ∈ lead, isSpace c = true) ∧
    rstrip s = lead ++ strip s := by
  refine ⟨s.takeWhile isSpace, fun c hc => List.mem_takeWhile_imp hc, ?_⟩
  conv_lhs => rw [← List.takeWhile_append_dropWhile (p := isSpace) (l := s)]
  exact rstrip_append_of_ne h _

theorem isSuffix_lstrip (hc : isSpace c = false) (s t : Str) : c :: t <:+ lstrip (s ++ c :: t) := by
  rw [lstrip, List.dropWhile_append]
  split_ifs
  · have hdrop : (c :: t).dropWhile isSpace = c :: t := List.dropWhile_cons_of_neg (by simp [hc])
    exact hdrop.symm ▸ List.suffix_refl (c :: t)
  · exact List.suffix_append _ _

/-- What is left of the line after `_render` has split it twice. -/
theorem afterFirst_isSuffix_rest {start rest : Str} {sep : Char} (hsep : sep = ':' ∨ sep = '=')
    (hstart : ∀ c ∈ start, c ≠ ':' ∧ c ≠ '=') :
    afterFirst '=' (afterFirst ':' (start ++ sep :: rest)) <:+ rest := by
  have hcolon : ':' ∉ start := fun h => (hstart _ h).1 rfl
  have hequals : '=' ∉ start := fun h => (hstart _ h).2 rfl
  rcases hsep with rfl | rfl
  · rw [afterFirst_append hcolon]
    exact afterFirst_suffix '=' rest
  · by_cases hrest : ':' ∈ rest
    · have hmem : ':' ∈ '=' :: rest := List.mem_cons_of_mem _ hrest
      rw [afterFirst_append_of_mem hcolon hmem, ← List.singleton_append,
        afterFirst_append_of_mem (by simp) hrest]
      exact (afterFirst_suffix '=' _).trans (afterFirst_suffix ':' rest)
    · have hnone : ':' ∉ start ++ '=' :: rest := by
        have hne : (':' : Char) ≠ '=' := by decide
        simp [hcolon, hrest, hne]
      have hrest : afterFirst '=' (afterFirst ':' (start ++ '=' :: rest)) = rest := by
        rw [afterFirst_of_notMem hnone, afterFirst_append hequals]
      exact hrest.symm ▸ List.suffix_refl rest

theorem commentAfter_isSuffix (s : Str) : commentAfter s <:+ rstrip s :=
  rstrip_isSuffix ((List.dropWhile_suffix _).trans (List.drop_suffix _ s))

/-- The comment of the line is carried over when what is left of the line still ends with it. -/
theorem isSuffix_trailingComment_iff {key : Str} (hkey : keyOf option = some key)
    (hbody : option.body = []) {comment : Comment} (hc : keyComment option = some comment) :
    comment.text <:+ trailingComment (some option) ↔
      comment.text <:+ rstrip (afterFirst '=' (afterFirst ':' option.head)) := by
  obtain ⟨head, body⟩ := option
  subst hbody
  set w := afterFirst '=' (afterFirst ':' head) with hw
  have htrail : trailingComment (some ⟨head, []⟩) = commentAfter w := rfl
  rw [htrail]
  refine ⟨fun h => h.trans (commentAfter_isSuffix w), fun h => ?_⟩
  obtain ⟨⟨_, value⟩, hopt, rfl⟩ := Option.map_eq_some_iff.1 hkey
  obtain ⟨start, sep, rest, hhead, hsep, hstart, hend, -, -⟩ := option_line hopt
  have hrest : (head.dropWhile fun d => d ≠ ':' && d ≠ '=').drop 1 = rest := by
    have hpos : ∀ d ∈ start, (d ≠ ':' && d ≠ '=') = true := fun d hd => by simpa using hstart d hd
    simp only at hhead
    rw [hhead, List.dropWhile_append_of_pos hpos]
    rcases hsep with rfl | rfl <;> rfl
  have hsuffix : w <:+ rest := by
    simp only at hhead
    rw [hw, hhead]
    exact afterFirst_isSuffix_rest hsep hstart
  rw [keyComment, hrest, commentOn] at hc
  split_ifs at hc with hnone
  obtain rfl := Option.some.inj hc
  dsimp only at h ⊢
  obtain ⟨x, hx, hsign, hmay⟩ := commentAfter_spec (trimmed_strip rest) hnone
  have hfixed : rstrip (commentAfter (strip rest)) = commentAfter (strip rest) :=
    List.rdropWhile_idempotent ..
  generalize commentAfter (strip rest) = comment at *
  obtain ⟨d, t, rfl⟩ := List.exists_cons_of_ne_nil hnone
  have hd : isCommentStart d = true := by simpa using hsign
  -- before the comment stands what stood there in the whole line
  obtain ⟨y, hy⟩ := h
  have hyx : signMayFollow true y = true := by
    obtain ⟨z, hz⟩ := rstrip_isSuffix hsuffix
    obtain ⟨lead, hlead, hrstrip⟩ := rstrip_eq_append_strip (s := rest) (by rw [hx]; simp)
    rw [hrstrip, ← hy, hx, ← List.append_assoc, ← List.append_assoc] at hz
    have hsame := List.append_cancel_right hz
    refine signMayFollow_of_isSuffix ⟨z, rfl⟩ ?_
    rw [hsame]
    exact signMayFollow_append hlead hmay
  obtain ⟨sp, hsp, hblank⟩ := rstrip_append_space w
  have hcut : w = y ++ d :: (t ++ sp) := by
    rw [hsp, ← hy]
    simp
  have hendw : toEnd (d :: (t ++ sp)) = true :=
    toEnd_of_suffix ((show d :: (t ++ sp) <:+ w from ⟨y, hcut.symm⟩).trans hsuffix) hend
  have hlen : (stripInlineComment w).length ≤ y.length := by
    refine (rstrip_isPrefix _).length_le.trans ?_
    rw [hcut]
    exact length_cutComment_le hd hendw hyx
  have hleft : d :: (t ++ sp) <:+ lstrip (w.drop (stripInlineComment w).length) := by
    rw [hcut, List.drop_append_of_le_length (hcut ▸ hlen)]
    exact isSuffix_lstrip (not_space_of_isCommentStart hd) _ _
  have := rstrip_isSuffix hleft
  rwa [← List.cons_append, rstrip_append_of_space hblank, hfixed] at this

end Line
/-! ## What is kept -/

variable {option : Block Str} {key : Str} {value : Value}

/-- A block keeps none of the key line's comment, and of the others what the table keeps. -/
theorem commentsKept_block (hblock : value.isBlock = true) (hne : value.newItems ≠ []) :
    CommentsKept option value ↔
      keyComment option = none ∧ Follows (rowsOf option) value.present value.newItems := by
  obtain ⟨hsorted, hlines⟩ := rowsOf_sorted option
  have hcarried : carriedComments option value =
      rewritten (rowsOf option) (trailingOf option) value.newItems := by
    rw [carriedComments, if_pos hblock, comments_pieces, if_neg hne]
  have hiff := rewritten_iff hsorted (List.subset_append_left value.newItems
    (value.newItems.map reads))
  rw [CommentsKept, hcarried, owedComments]
  cases hkey : keyComment option with
  | none => simpa [Value.present] using hiff
  | some c =>
    refine ⟨fun h => ?_, fun h => (by cases h.1)⟩
    have hc := hlines c (mem_of_mem_rewritten (h.1.subset (by simp)))
    rw [line_of_commentOn hkey] at hc
    exact absurd hc (by decide)

theorem commentsKept_line (hkey : keyOf option = some key) (hblock : value.isBlock = false)
    (hbody : option.body = []) :
    CommentsKept option value ↔ ∀ c, keyComment option = some c →
      c.text <:+ rstrip (afterFirst '=' (afterFirst ':' option.head)) := by
  have howed : owedComments option value = (keyComment option).toList := by
    simp [owedComments, rowsOf, trailingOf, hbody, rowsFrom, owed, notesOf]
  rw [CommentsKept, howed, carriedComments, if_neg (by simp [hblock]), if_pos hbody]
  cases hc : keyComment option with
  | none => simp
  | some c =>
    simp only [Option.some.injEq, forall_eq']
    rw [← isSuffix_trailingComment_iff hkey hbody hc]
    by_cases h : c.text <:+ trailingComment (some option) <;> simp [h]

theorem commentsKept_iff (hkey : keyOf option = some key) (value : Value) :
    CommentsKept option value ↔ KeepsComments option value := by
  rw [KeepsComments]
  split_ifs with hblock hline
  · exact commentsKept_block hblock.1 hblock.2
  · exact commentsKept_line hkey (by simpa using hline.1) hline.2
  · have hnone : carriedComments option value = [] := by
      rw [carriedComments]
      split_ifs with h hbody
      · have hitems : value.newItems = [] := by_contra fun hne => hblock ⟨h, hne⟩
        rw [hitems]
        rfl
      · exact absurd ⟨h, hbody⟩ hline
      · rfl
    simp [CommentsKept, hnone]

namespace CfgDocument
variable {doc : CfgDocument} {name : Str}

theorem edit_congr {f g : List Str → List Str} {sec : Block Str}
    (h : doc.section? name = some sec) (hfg : f sec.body = g sec.body) :
    doc.edit name f = doc.edit name g := by
  obtain ⟨before, after, -, -, -, hedit⟩ := editFirst_eq h
  rw [edit, edit, hedit, hedit, hfg]

theorem keyOf_of_option? (h : doc.option? name key = some option) : keyOf option = some key := by
  obtain ⟨sec, -, hopt⟩ := Option.bind_eq_some_iff.1 h
  exact keyOf_of_mem_written (List.mem_of_head? hopt)

theorem set_eq_splice (h : doc.option? name key = some option) (value : Value) :
    doc.set name key value = doc.splice ⟨(doc.optionSpan name key).1, (doc.optionSpan name key).2,
      (CfgDoc.render key value (some option)).lines⟩ := by
  obtain ⟨sec, hsec, hopt⟩ := Option.bind_eq_some_iff.1 h
  have hname : name ∈ doc.names := hasSection_iff.1 (by simp [hasSection, hsec])
  have hwritten : written sec.body key ≠ [] := List.ne_nil_of_mem (List.mem_of_head? hopt)
  have hset : setIn key value sec.body = editFirst startsItem (keyOf · = some key)
      (fun existing => [CfgDoc.render key value (some existing)]) sec.body :=
    if_neg hwritten
  rw [set, addSection_of_mem hname, edit_congr hsec hset,
    edit_eq_splice h fun existing => [CfgDoc.render key value (some existing)]]
  simp

theorem set_keeps_comments_iff (doc : CfgDocument) (name key : Str) (option : Block Str)
    (h : doc.option? name key = some option) (value : Value) :
    (doc.set name key value = doc.splice ⟨(doc.optionSpan name key).1, (doc.optionSpan name key).2,
      (CfgDoc.render key value (some option)).lines⟩) ∧
    (value.isBlock = true → (CfgDoc.render key value (some option)).lines =
      (key ++ [':']) :: (pieces option value.newItems).map Piece.line) ∧
    (value.isBlock = false → ∃ text, (CfgDoc.render key value (some option)).lines = [text] ∧
      ∀ c ∈ carriedComments option value, c.text <:+ text) ∧
    (CommentsKept option value ↔ KeepsComments option value) := by
  refine ⟨set_eq_splice h value, fun hblock => ?_, fun hline => ?_,
    commentsKept_iff (keyOf_of_option? h) value⟩
  · cases value with
    | list items => rw [CfgDoc.render, renderBlock_eq]; rfl
    | text s =>
      have hs : '\n' ∈ s := by simpa [Value.isBlock] using hblock
      rw [CfgDoc.render, if_pos hs, renderBlock_eq, Value.newItems, if_pos hs]
      rfl
  · cases value with
    | list items => cases hline
    | text s =>
      have hs : '\n' ∉ s := by simpa [Value.isBlock] using hline
      rw [CfgDoc.render, if_neg hs]
      refine ⟨_, rfl, fun c hc => ?_⟩
      rw [carriedComments, if_neg (by simp [hline])] at hc
      split_ifs at hc
      · have hsuffix : c.text <:+ trailingComment (some option) := by
          simpa using (List.mem_filter.1 hc).2
        refine hsuffix.trans ?_
        by_cases hnone : trailingComment (some option) = []
        · rw [hnone]
          exact List.nil_suffix
        · dsimp only
          rw [if_neg hnone]
          exact (List.suffix_append _ _).trans (List.suffix_append _ _)
      · exact absurd hc List.not_mem_nil

/-- A type with a comment beside its chipset, above a board and beside the key of its boards. -/
def commented : CfgDocument := ⟨["[type a]".toList, "chipset: stm32  # the MCU".toList,
  "serials:  # in order".toList, "    # left".toList, "    123".toList]⟩

theorem set_keeps_comments_commented :
    CommentsKept ⟨"chipset: stm32  # the MCU".toList, []⟩ (.text "rp2040".toList) := by
  refine (set_keeps_comments_iff commented "type a".toList "chipset".toList _ (by decide) _).2.2.2.2 ?_
  rw [KeepsComments, if_neg (by decide), if_pos (by decide)]
  intro c hc
  obtain rfl : (⟨0, "# the MCU".toList⟩ : Comment) = c := Option.some.inj (by rw [← hc]; decide)
  decide

theorem set_loses_comment :
    commented.option? "type a".toList "serials".toList =
      some ⟨"serials:  # in order".toList, ["    # left".toList, "    123".toList]⟩ ∧
    (commented.set "type a".toList "serials".toList (.list ["123".toList, "456".toList])).lines =
      ["[type a]".toList, "chipset: stm32  # the MCU".toList, "serials:".toList,
        "    # left".toList, "    123".toList, "    456".toList] ∧
    ¬CommentsKept ⟨"serials:  # in order".toList, ["    # left".toList, "    123".toList]⟩
      (.list ["123".toList, "456".toList]) := by
  refine ⟨by decide, by decide, fun h => ?_⟩
  have := h.1.subset (a := ⟨0, "# in order".toList⟩) (by decide)
  exact absurd this (by decide)

end CfgDocument
end McuUpdater.CfgDoc
