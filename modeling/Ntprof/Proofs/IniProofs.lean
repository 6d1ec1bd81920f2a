import Ntprof.Config

/-!
# Comments in a task file

What `config_load_ini` makes of a file, line by line, and that the text of a comment does not matter as long as no
line with a comment is longer than what `fgets` reads at once. A longer line is read in pieces, each piece is taken
for a line of its own, and what is left of a comment in a later piece is parsed.
-/

namespace Ntprof

/-! ## Files, lines and comments -/

/-- The lines of a file, without their newlines; the last one has none. -/
def linesOf (f : List U8) : List (List U8) := f.splitOn 0x0a#8

/-- A byte that starts a comment outside quotes. -/
def startsComment (m : U8) : Bool := m == 0x3b#8 || m == 0x23#8

/-- The quotes that are open after a text, when `quote` were before it (0: none). -/
def quoteAfter (quote : U8) : List U8 → U8
  | [] => quote
  | c :: s =>
    quoteAfter (if quote ≠ 0 then (if c = quote then 0 else quote) else if c = 0x22#8 ∨ c = 0x27#8 then c else 0) s

/-- The comment of a line starts right after `pre`: at the first `;` or `#` outside quotes. -/
structure CommentAfter (pre l : List U8) : Prop where
  marked : ∃ m text, l = pre ++ m :: text ∧ startsComment m
  outside : quoteAfter 0 pre = 0
  first : ∀ p m text, pre = p ++ m :: text → startsComment m → quoteAfter 0 p ≠ 0

/-- Two lines are the same but for the text of their comments. -/
def SameButComment (l l' : List U8) : Prop := l = l' ∨ ∃ pre, CommentAfter pre l ∧ CommentAfter pre l'

/-- Two files are the same but for the text of their comments. -/
def Recommented (f f' : List U8) : Prop := List.Forall₂ SameButComment (linesOf f) (linesOf f')

/-- No line with a comment has more than `n` bytes. -/
def CommentsWithin (n : ℕ) (f : List U8) : Prop := ∀ l ∈ linesOf f, (∃ pre, CommentAfter pre l) → l.length ≤ n

/-- `config_load_ini` gives the same return value and the same configuration for two files. -/
def LoadsAlike (c : NtpConfig) (f f' : List U8) : Prop :=
  (configLoadIni c (some f)).1 = (configLoadIni c (some f')).1 ∧
    (configLoadIni c (some f)).2.1 = (configLoadIni c (some f')).2.1

/-! ## Lines without their comments -/

theorem textOf_cons {c : U8} (hc : c ≠ 0) (s : List U8) : textOf (c :: s) = c :: textOf s :=
  List.takeWhile_cons_of_pos (by simpa using hc)

theorem textOf_zero (s : List U8) : textOf (0 :: s) = [] := List.takeWhile_cons_of_neg (by simp)

/-- What is before the comment is left of a line that is read at once. -/
theorem cutComment_textOf {pre text : List U8} {m : U8} (hm : startsComment m) (q : U8)
    (outside : quoteAfter q pre = 0)
    (first : ∀ p m text, pre = p ++ m :: text → startsComment m → quoteAfter q p ≠ 0) :
    cutComment q (textOf (pre ++ m :: text)) = textOf pre := by
  -- Along `pre`, with the quotes that are open.
  induction pre generalizing q with
  | nil =>
    have hq : q = 0 := outside
    have hm0 : m ≠ 0 := by
      rintro rfl
      simp [startsComment] at hm
    have hmark : m = 0x3b#8 ∨ m = 0x23#8 := by simpa [startsComment] using hm
    have hquote : ¬ (m = 0x22#8 ∨ m = 0x27#8) := by
      rcases hmark with rfl | rfl <;> decide
    rw [List.nil_append, textOf_cons hm0, cutComment, hq, if_neg (not_not_intro rfl), if_neg hquote, if_pos hmark]
    rfl
  | cons c pre ih =>
    by_cases hc : c = 0
    · rw [hc, List.cons_append, textOf_zero, textOf_zero, cutComment]
    · have hhead : startsComment c → q ≠ 0 := fun h => first [] c pre rfl h
      have hrest := ih _ outside fun p m text hp => first (c :: p) m text (by rw [hp, List.cons_append])
      rw [List.cons_append, textOf_cons hc, textOf_cons hc, cutComment]
      by_cases hq : q = 0
      · have hmark : ¬ (c = 0x3b#8 ∨ c = 0x23#8) := fun h => hhead (by simpa [startsComment] using h) hq
        by_cases hquote : c = 0x22#8 ∨ c = 0x27#8
        · simp only [hq, ne_eq, not_true_eq_false, if_false, hquote, if_true] at hrest ⊢
          rw [hrest]
        · simp only [hq, ne_eq, not_true_eq_false, if_false, hquote, hmark] at hrest ⊢
          rw [hrest]
      · rw [if_pos hq] at hrest
        rw [if_pos hq, hrest]

theorem CommentAfter.cut_append {pre l : List U8} (h : CommentAfter pre l) (t : List U8) :
    cutComment 0 (textOf (l ++ t)) = textOf pre := by
  obtain ⟨m, text, rfl, hm⟩ := h.marked
  rw [List.append_assoc, List.cons_append]
  exact cutComment_textOf hm 0 h.outside h.first

/-! ## Reading a file -/

theorem fgetsFrom_ne_nil {room : ℕ} {f : List U8} (h : f ≠ []) : fgetsFrom room f ≠ [] := by
  cases f with
  | nil => exact absurd rfl h
  | cons c f =>
    rw [fgetsFrom]
    split_ifs with hend
    · exact List.cons_ne_nil _ _
    · split <;> exact List.cons_ne_nil _ _

/-- Each line is read for itself. -/
theorem fgetsFrom_append_newline (room : ℕ) (l f : List U8) :
    fgetsFrom room (l ++ 0x0a#8 :: f) = fgetsFrom room (l ++ [0x0a#8]) ++ fgetsFrom (iniLineSize - 1) f := by
  induction l generalizing room with
  | nil => simp [fgetsFrom]
  | cons c l ih =>
    simp only [List.cons_append, fgetsFrom]
    split_ifs with hend
    · rw [ih, List.cons_append]
    · rw [ih]
      have hne : fgetsFrom (room - 1) (l ++ [0x0a#8]) ≠ [] :=
        fgetsFrom_ne_nil (List.append_ne_nil_of_right_ne_nil _ (List.cons_ne_nil _ _))
      obtain ⟨piece, pieces, hp⟩ := List.exists_cons_of_ne_nil hne
      rw [hp, List.cons_append]
      rfl

/-- What fills the room is one piece. -/
theorem fgetsFrom_full {room : ℕ} {l : List U8} (hl : l.length = room) (hne : l ≠ []) (hn : 0x0a#8 ∉ l) (t : List U8) :
    fgetsFrom room (l ++ t) = l :: fgetsFrom (iniLineSize - 1) t := by
  induction l generalizing room with
  | nil => exact absurd rfl hne
  | cons c l ih =>
    have hc : c ≠ 0x0a#8 := fun h => hn (h ▸ List.mem_cons_self)
    rw [List.cons_append, fgetsFrom]
    cases l with
    | nil =>
      have hroom : room ≤ 1 := by rw [← hl]; rfl
      rw [if_pos (.inr hroom), List.nil_append]
    | cons d l =>
      have hroom : ¬ (c = 0x0a#8 ∨ room ≤ 1) := by
        simp only [List.length_cons] at hl
        rintro (h | h)
        · exact hc h
        · omega
      have hlen : (d :: l).length = room - 1 := by rw [← hl]; rfl
      rw [if_neg hroom, ih hlen (List.cons_ne_nil _ _) fun h => hn (List.mem_cons_of_mem _ h)]

/-- A line that leaves room for its newline is one piece. -/
theorem fgetsFrom_line {room : ℕ} {l : List U8} (hl : l.length < room) (hn : 0x0a#8 ∉ l) :
    fgetsFrom room (l ++ [0x0a#8]) = [l ++ [0x0a#8]] := by
  induction l generalizing room with
  | nil => simp [fgetsFrom]
  | cons c l ih =>
    have hc : c ≠ 0x0a#8 := fun h => hn (h ▸ List.mem_cons_self)
    simp only [List.length_cons] at hl
    have hroom : ¬ (c = 0x0a#8 ∨ room ≤ 1) := by
      rintro (h | h)
      · exact hc h
      · omega
    have hlt : l.length < room - 1 := by omega
    rw [List.cons_append, fgetsFrom, if_neg hroom, ih hlt fun h => hn (List.mem_cons_of_mem _ h)]

/-- A last line that fits is one piece. -/
theorem fgetsFrom_last {room : ℕ} {l : List U8} (hl : l.length ≤ room) (hne : l ≠ []) (hn : 0x0a#8 ∉ l) :
    fgetsFrom room l = [l] := by
  induction l generalizing room with
  | nil => exact absurd rfl hne
  | cons c l ih =>
    have hc : c ≠ 0x0a#8 := fun h => hn (h ▸ List.mem_cons_self)
    simp only [List.length_cons] at hl
    rw [fgetsFrom]
    by_cases hroom : room ≤ 1
    · have hnil : l = [] := List.length_eq_zero_iff.mp (by omega)
      rw [if_pos (.inr hroom), hnil]
      rfl
    · rw [if_neg (by rintro (h | h); exacts [hc h, hroom h])]
      cases l with
      | nil => rfl
      | cons d l =>
        have hle : (d :: l).length ≤ room - 1 := by omega
        rw [ih hle (List.cons_ne_nil _ _) fun h => hn (List.mem_cons_of_mem _ h)]

/-! ## Blank lines and line numbers -/

/-- Something is left of a line. -/
def written (s : List U8) : Bool := decide (strip s ≠ [])

theorem iniLine_blank {s : List U8} (h : ¬ written s) (c : NtpConfig) (sect : List U8) (line : ℕ) :
    iniLine c sect line s = (c, sect, none) := by
  have hs : strip s = [] := by simpa [written] using h
  simp [iniLine, hs]

/-- The number of a line is only printed. -/
theorem iniLine_number (c : NtpConfig) (sect : List U8) (n m : ℕ) (s : List U8) :
    (iniLine c sect n s).1 = (iniLine c sect m s).1 ∧ (iniLine c sect n s).2.1 = (iniLine c sect m s).2.1 ∧
      (iniLine c sect n s).2.2.isSome = (iniLine c sect m s).2.2.isSome := by
  simp only [iniLine]
  split_ifs <;> simp

/-- Blank lines and line numbers change neither the configuration nor whether there is an error. -/
theorem iniLines_written (c : NtpConfig) (sect : List U8) (n m : ℕ) (ls : List (List U8)) :
    (iniLines c sect n ls).1 = (iniLines c sect m (ls.filter written)).1 ∧
      (iniLines c sect n ls).2.isSome = (iniLines c sect m (ls.filter written)).2.isSome := by
  -- Along the lines: one that is written is taken on both sides, a blank one only on the left.
  induction ls generalizing c sect n m with
  | nil => exact ⟨rfl, rfl⟩
  | cons s ls ih =>
    by_cases hs : written s
    · rw [List.filter_cons_of_pos hs]
      obtain ⟨hc, hsect, herr⟩ := iniLine_number c sect n m s
      simp only [iniLines]
      rcases hn : iniLine c sect n s with ⟨c₁, sect₁, _ | e₁⟩ <;>
        rcases hm : iniLine c sect m s with ⟨c₂, sect₂, _ | e₂⟩ <;>
        simp only [hn, hm, Option.isSome_none, Option.isSome_some, Bool.true_eq_false, Bool.false_eq_true] at hc hsect herr
      · subst hc hsect
        exact ih ..
      · subst hc
        exact ⟨rfl, rfl⟩
    · rw [List.filter_cons_of_neg hs, iniLines, iniLine_blank hs]
      exact ih ..

/-- A line that is an error at every place makes the whole file one. -/
theorem iniLines_error {bad : List U8} (hbad : ∀ c sect line, (iniLine c sect line bad).2.2.isSome) {ls : List (List U8)}
    (h : bad ∈ ls) (c : NtpConfig) (sect : List U8) (n : ℕ) : (iniLines c sect n ls).2.isSome := by
  induction ls generalizing c sect n with
  | nil => exact absurd h List.not_mem_nil
  | cons s ls ih =>
    rw [iniLines]
    rcases hs : iniLine c sect n s with ⟨c', sect', _ | e⟩
    · rcases List.mem_cons.mp h with rfl | h
      · have := hbad c sect n
        rw [hs] at this
        exact absurd this (by simp)
      · exact ih h ..
    · rfl

/-! ## A file, line by line -/

/-- What `config_load_ini` works on: the pieces that are read, without their comments. -/
def piecesOf (f : List U8) : List (List U8) :=
  (fgetsFrom (iniLineSize - 1) f).map fun buf => cutComment 0 (textOf buf)

theorem piecesOf_newline (l f : List U8) : piecesOf (l ++ 0x0a#8 :: f) = piecesOf (l ++ [0x0a#8]) ++ piecesOf f := by
  rw [piecesOf, fgetsFrom_append_newline, List.map_append]
  rfl

/-- Two files of which the same is written are loaded alike. -/
theorem loadsAlike_of_written {f f' : List U8} (h : (piecesOf f).filter written = (piecesOf f').filter written)
    (c : NtpConfig) : LoadsAlike c f f' := by
  obtain ⟨hc, herr⟩ := iniLines_written c [] 1 1 (piecesOf f)
  obtain ⟨hc', herr'⟩ := iniLines_written c [] 1 1 (piecesOf f')
  rw [← h] at hc' herr'
  have hret : (iniLines c [] 1 (piecesOf f)).2.isSome = (iniLines c [] 1 (piecesOf f')).2.isSome := herr.trans herr'.symm
  refine ⟨?_, hc.trans hc'.symm⟩
  show (if (iniLines c [] 1 (piecesOf f)).2.isSome = true then (-1 : Int) else 0)
    = if (iniLines c [] 1 (piecesOf f')).2.isSome = true then -1 else 0
  rw [hret]

theorem CommentAfter.ne_nil {pre l : List U8} (h : CommentAfter pre l) : l ≠ [] := by
  obtain ⟨m, text, rfl, -⟩ := h.marked
  exact List.append_ne_nil_of_right_ne_nil _ (List.cons_ne_nil _ _)

/-- A line that fits, but perhaps for its newline, gives what is before its comment. -/
theorem CommentAfter.written_line {pre l : List U8} (h : CommentAfter pre l) (hn : 0x0a#8 ∉ l)
    (hl : l.length ≤ iniLineSize - 1) :
    (piecesOf (l ++ [0x0a#8])).filter written = [textOf pre].filter written := by
  rcases Nat.lt_or_eq_of_le hl with hlt | heq
  · rw [piecesOf, fgetsFrom_line hlt hn, List.map_singleton, h.cut_append]
  · -- The newline is a piece of its own, and a blank one.
    have hcut := h.cut_append []
    rw [List.append_nil] at hcut
    rw [piecesOf, fgetsFrom_full heq h.ne_nil hn, List.map_cons, hcut, List.filter_cons, List.filter_cons]
    rfl

theorem CommentAfter.written_last {pre l : List U8} (h : CommentAfter pre l) (hn : 0x0a#8 ∉ l)
    (hl : l.length ≤ iniLineSize - 1) : (piecesOf l).filter written = [textOf pre].filter written := by
  have hcut := h.cut_append []
  rw [List.append_nil] at hcut
  rw [piecesOf, fgetsFrom_last hl h.ne_nil hn, List.map_singleton, hcut]

/-! ## Comments -/

theorem newline_not_mem_linesOf {f l : List U8} (h : l ∈ linesOf f) : 0x0a#8 ∉ l := by
  induction f generalizing l with
  | nil =>
    rw [linesOf, List.splitOn_nil, List.mem_singleton] at h
    rw [h]
    exact List.not_mem_nil
  | cons c f ih =>
    rw [linesOf, List.splitOn_cons_eq_if_modifyHead] at h
    split_ifs at h with hc
    · rcases List.mem_cons.mp h with rfl | h
      · exact List.not_mem_nil
      · exact ih h
    · obtain ⟨l₀, ls, hls⟩ := List.exists_cons_of_ne_nil (List.splitOn_ne_nil 0x0a#8 f)
      have hmem : ∀ l' ∈ l₀ :: ls, 0x0a#8 ∉ l' := fun l' hl' => ih (by rw [linesOf, hls]; exact hl')
      rw [hls, List.modifyHead_cons] at h
      rcases List.mem_cons.mp h with rfl | h
      · intro hnl
        rcases List.mem_cons.mp hnl with heq | hnl
        · rw [← heq] at hc
          exact hc (beq_self_eq_true _)
        · exact hmem l₀ List.mem_cons_self hnl
      · exact hmem l (List.mem_cons_of_mem _ h)

/-- Lines that are the same but for comments that fit leave the same written. -/
theorem written_of_sameButComment {l l' t : List U8} (h : SameButComment l l') (ht : t = [] ∨ t = [0x0a#8])
    (hn : 0x0a#8 ∉ l) (hn' : 0x0a#8 ∉ l') (hl : (∃ pre, CommentAfter pre l) → l.length ≤ iniLineSize - 1)
    (hl' : (∃ pre, CommentAfter pre l') → l'.length ≤ iniLineSize - 1) :
    (piecesOf (l ++ t)).filter written = (piecesOf (l' ++ t)).filter written := by
  rcases h with rfl | ⟨pre, hc, hc'⟩
  · rfl
  · rcases ht with rfl | rfl
    · rw [List.append_nil, List.append_nil, hc.written_last hn (hl ⟨pre, hc⟩), hc'.written_last hn' (hl' ⟨pre, hc'⟩)]
    · rw [hc.written_line hn (hl ⟨pre, hc⟩), hc'.written_line hn' (hl' ⟨pre, hc'⟩)]

/-- The same for whole files, given by their lines. -/
theorem written_of_lines {ls ls' : List (List U8)} (h : List.Forall₂ SameButComment ls ls')
    (hn : ∀ l ∈ ls, 0x0a#8 ∉ l) (hn' : ∀ l ∈ ls', 0x0a#8 ∉ l)
    (hl : ∀ l ∈ ls, (∃ pre, CommentAfter pre l) → l.length ≤ iniLineSize - 1)
    (hl' : ∀ l ∈ ls', (∃ pre, CommentAfter pre l) → l.length ≤ iniLineSize - 1) :
    (piecesOf ([0x0a#8].intercalate ls)).filter written = (piecesOf ([0x0a#8].intercalate ls')).filter written := by
  induction h with
  | nil => rfl
  | @cons l l' ls ls' hsame hrest ih =>
    have ihrest := ih (fun l h => hn l (List.mem_cons_of_mem _ h)) (fun l h => hn' l (List.mem_cons_of_mem _ h))
      (fun l h => hl l (List.mem_cons_of_mem _ h)) (fun l h => hl' l (List.mem_cons_of_mem _ h))
    have hline := fun {t} ht => written_of_sameButComment (t := t) hsame ht (hn l List.mem_cons_self)
      (hn' l' List.mem_cons_self) (hl l List.mem_cons_self) (hl' l' List.mem_cons_self)
    cases hrest with
    | nil =>
      rw [List.intercalate_singleton, List.intercalate_singleton]
      simpa only [List.append_nil] using hline (.inl rfl)
    | cons _ _ =>
      rw [List.intercalate_cons_cons, List.intercalate_cons_cons, List.append_assoc, List.append_assoc,
        List.singleton_append, List.singleton_append, piecesOf_newline, piecesOf_newline l', List.filter_append,
        List.filter_append, ihrest, hline (.inr rfl)]

/-- Comments that fit have no effect. -/
theorem loadsAlike_of_recommented {f f' : List U8} (h : Recommented f f') (hf : CommentsWithin (iniLineSize - 1) f)
    (hf' : CommentsWithin (iniLineSize - 1) f') (c : NtpConfig) : LoadsAlike c f f' := by
  have hwritten := written_of_lines h (fun l => newline_not_mem_linesOf) (fun l => newline_not_mem_linesOf) hf hf'
  rw [linesOf, linesOf, List.intercalate_splitOn, List.intercalate_splitOn] at hwritten
  exact loadsAlike_of_written hwritten c

/-! ## Longer comments -/

/-- A comment that fills one read, and an `x` after it. -/
def longComment (pre : List U8) : List U8 :=
  pre ++ 0x3b#8 :: List.replicate (iniLineSize - 2 - pre.length) 0x61#8 ++ [0x78#8]

theorem length_longComment {pre : List U8} (h : pre.length + 1 < iniLineSize) :
    (longComment pre).length = iniLineSize := by
  simp only [longComment, List.length_append, List.length_cons, List.length_replicate, List.length_nil]
  omega

/-- What is left of such a comment in the second piece is an error. -/
theorem longComment_error {full : List U8} (hfull : full.length = iniLineSize - 1) (hn : 0x0a#8 ∉ full)
    (before after : List (List U8)) :
    ∃ bad ∈ piecesOf ([0x0a#8].intercalate (before ++ (full ++ [0x78#8]) :: after)),
      ∀ c sect line, (iniLine c sect line bad).2.2.isSome := by
  have hne : full ≠ [] := by
    rintro rfl
    cases hfull
  induction before with
  | nil =>
    cases after with
    | nil =>
      refine ⟨[0x78#8], ?_, fun _ _ _ => rfl⟩
      rw [List.nil_append, List.intercalate_singleton, piecesOf, fgetsFrom_full hfull hne hn]
      exact List.mem_cons_of_mem _ (List.mem_singleton.mpr rfl)
    | cons l after =>
      refine ⟨[0x78#8, 0x0a#8], ?_, fun _ _ _ => rfl⟩
      rw [List.nil_append, List.intercalate_cons_cons, List.append_assoc, List.append_assoc, piecesOf,
        fgetsFrom_full hfull hne hn]
      exact List.mem_cons_of_mem _ List.mem_cons_self
  | cons l before ih =>
    obtain ⟨bad, hmem, hbad⟩ := ih
    refine ⟨bad, ?_, hbad⟩
    rw [List.cons_append, List.intercalate_cons_of_ne_nil (by simp), List.append_assoc, List.singleton_append,
      piecesOf_newline]
    exact List.mem_append_right _ hmem

theorem CommentAfter.longComment {pre l : List U8} (h : CommentAfter pre l) : CommentAfter pre (longComment pre) where
  marked := ⟨0x3b#8, List.replicate (iniLineSize - 2 - pre.length) 0x61#8 ++ [0x78#8], by
    rw [Ntprof.longComment, List.append_assoc, List.cons_append], rfl⟩
  outside := h.outside
  first := h.first

theorem newline_not_mem_longComment {pre : List U8} (h : 0x0a#8 ∉ pre) :
    0x0a#8 ∉ pre ++ 0x3b#8 :: List.replicate (iniLineSize - 2 - pre.length) 0x61#8 := by
  intro hmem
  rcases List.mem_append.mp hmem with hpre | hrest
  · exact h hpre
  · rcases List.mem_cons.mp hrest with hm | hrep
    · exact absurd hm (by decide)
    · exact absurd (List.eq_of_mem_replicate hrep) (by decide)

/-- Every file with a comment has a replacement of it that the loader refuses, one byte too long. -/
theorem longComment_refused {f pre l : List U8} (hf : CommentsWithin (iniLineSize - 1) f) (hl : l ∈ linesOf f)
    (hc : CommentAfter pre l) (c : NtpConfig) :
    ∃ f', Recommented f f' ∧ CommentsWithin iniLineSize f' ∧ (configLoadIni c (some f')).1 = -1 := by
  obtain ⟨before, after, hlines⟩ := List.append_of_mem hl
  obtain ⟨m, text, hmark, -⟩ := hc.marked
  have hfit : pre.length + 1 < iniLineSize := by
    have hlen := hf l hl ⟨pre, hc⟩
    rw [hmark, List.length_append, List.length_cons] at hlen
    have hpos : 0 < iniLineSize := by decide
    omega
  have hpre : 0x0a#8 ∉ pre := fun h =>
    newline_not_mem_linesOf hl (by rw [hmark]; exact List.mem_append_left _ h)
  have hfull := newline_not_mem_longComment hpre
  have hmem : ∀ l' ∈ before ++ after, l' ∈ linesOf f := by
    intro l' h
    rw [hlines]
    rcases List.mem_append.mp h with h | h
    · exact List.mem_append_left _ h
    · exact List.mem_append_right _ (List.mem_cons_of_mem _ h)
  have hother : ∀ l' ∈ before ++ longComment pre :: after, l' = longComment pre ∨ l' ∈ before ++ after := by
    intro l' h
    simp only [List.mem_append, List.mem_cons] at h ⊢
    tauto
  have hlines' : linesOf ([0x0a#8].intercalate (before ++ longComment pre :: after))
      = before ++ longComment pre :: after := by
    refine List.splitOn_intercalate _ (fun l' h => ?_) (by simp)
    rcases hother l' h with rfl | h
    · intro hnl
      rcases List.mem_append.mp hnl with hnl | hnl
      · exact hfull hnl
      · exact absurd (List.mem_singleton.mp hnl) (by decide)
    · exact newline_not_mem_linesOf (hmem l' h)
  refine ⟨[0x0a#8].intercalate (before ++ longComment pre :: after), ?_, ?_, ?_⟩
  · rw [Recommented, hlines, hlines']
    have hrefl : ∀ ls, List.Forall₂ SameButComment ls ls := fun ls => List.forall₂_same.mpr fun l _ => .inl rfl
    exact List.rel_append (hrefl before) (.cons (.inr ⟨pre, hc, hc.longComment⟩) (hrefl after))
  · intro l' h hpre'
    rw [hlines'] at h
    rcases hother l' h with rfl | h
    · exact (length_longComment hfit).le
    · exact (hf l' (hmem l' h) hpre').trans (Nat.sub_le _ _)
  · have hlen := length_longComment hfit
    rw [longComment, List.length_append, List.length_singleton] at hlen
    obtain ⟨bad, hbad, herr⟩ := longComment_error (Nat.eq_sub_of_add_eq hlen) hfull before after
    exact if_pos (iniLines_error herr hbad c [] 1)

/-- An empty comment, in a line of its own. -/
theorem commentAfter_empty : CommentAfter [] [0x3b#8] where
  marked := ⟨0x3b#8, [], rfl, rfl⟩
  outside := rfl
  first := fun _ _ _ h => absurd h (by simp)

/-- The text of comments has no effect as long as no line with a comment is longer than `n` bytes, exactly when `n`
bytes fit in one read. -/
theorem comments_inert_iff (c : NtpConfig) (n : ℕ) :
    (∀ f f', Recommented f f' → CommentsWithin n f → CommentsWithin n f' → LoadsAlike c f f') ↔ n < iniLineSize := by
  constructor
  · intro h
    by_contra hn
    -- A file of one empty comment, which is loaded.
    have hlines : linesOf [0x3b#8] = [[0x3b#8]] := rfl
    have hfit : ∀ m, 0 < m → CommentsWithin m [0x3b#8] := by
      intro m hm l hl _
      rw [hlines, List.mem_singleton] at hl
      rw [hl]
      exact hm
    have hpos : 0 < iniLineSize - 1 := by decide
    obtain ⟨f', hsame, hlong, hret⟩ :=
      longComment_refused (hfit _ hpos) (hlines ▸ List.mem_singleton.mpr rfl) commentAfter_empty c
    have hwithin : CommentsWithin n f' := fun l hl hpre => (hlong l hl hpre).trans (Nat.le_of_not_lt hn)
    have hloads : (configLoadIni c (some [0x3b#8])).1 = (configLoadIni c (some f')).1 :=
      (h _ f' hsame (hfit n (by omega)) hwithin).1
    rw [hret] at hloads
    exact absurd hloads (by decide : (0 : Int) ≠ -1)
  · intro hn f f' hsame hf hf'
    exact loadsAlike_of_recommented hsame (fun l hl hpre => (hf l hl hpre).trans (Nat.le_sub_one_of_lt hn))
      (fun l hl hpre => (hf' l hl hpre).trans (Nat.le_sub_one_of_lt hn)) c

/-- The comment `;` is replaced by one of 1024 bytes that ends in `x`, and the file is refused. -/
theorem long_comment_is_parsed :
    Recommented [0x3b#8] (longComment []) ∧ (configLoadIni configDefaults (some [0x3b#8])).1 = 0 ∧
      (configLoadIni configDefaults (some (longComment []))).1 = -1 := by
  refine ⟨?_, rfl, by decide +kernel⟩
  have hlines : linesOf (longComment []) = [longComment []] := List.splitOn_eq_singleton (by decide +kernel)
  rw [Recommented, hlines]
  exact .cons (.inr ⟨[], commentAfter_empty, commentAfter_empty.longComment⟩) .nil

end Ntprof
