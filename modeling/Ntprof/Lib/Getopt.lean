import Mathlib.Data.List.Infix

/-!
# GNU option parsing

A scan over the words of a command line, as `getopt_long` makes it: options may stand among the other words,
`--` ends them, short options are clustered and long ones may be abbreviated. A scan reports the options in
their order and permutes the words so that the others come last.
-/

namespace Getopt

variable {χ ω : Type} [DecidableEq χ] [DecidableEq ω]

/-- The options of a program. -/
structure Spec (χ ω : Type) where
  /-- The character that starts an option. -/
  dash : χ
  /-- The character between the name of a long option and its argument. -/
  eq : χ
  short : χ → Option ω
  long : List (List χ × ω)
  hasArg : ω → Bool

/-- How a word with options ends: nothing is missing, an option takes the next word, or there is an error. -/
inductive Tail (ω : Type) where
  | done
  | takesNext (o : ω)
  | bad

/-- The option that a name of a long option stands for: its exact name, or the start of that of one option. -/
def Spec.findLong (sp : Spec χ ω) (name : List χ) : Option ω :=
  match sp.long.find? fun e => e.1 == name with
  | some e => some e.2
  | none =>
    match sp.long.filter fun e => name.isPrefixOf e.1 with
    | [] => none
    | e :: es => if es.all fun e' => e'.2 == e.2 then some e.2 else none

/-- The option of a word without its two dashes. -/
def Spec.longOption (sp : Spec χ ω) (w : List χ) : List (ω × Option (List χ)) × Tail ω :=
  match sp.findLong (w.takeWhile fun c => c ≠ sp.eq), w.dropWhile fun c => c ≠ sp.eq with
  | none, _ => ([], .bad)
  | some o, [] => if sp.hasArg o then ([], .takesNext o) else ([(o, none)], .done)
  | some o, _ :: v => if sp.hasArg o then ([(o, some v)], .done) else ([], .bad)

/-- The options of a word without its dash. -/
def Spec.shortOptions (sp : Spec χ ω) : List χ → List (ω × Option (List χ)) × Tail ω
  | [] => ([], .done)
  | c :: cs =>
    match sp.short c with
    | none => ([], .bad)
    | some o =>
      if sp.hasArg o then
        match cs with
        | [] => ([], .takesNext o)
        | c' :: cs' => ([(o, some (c' :: cs'))], .done)
      else ((o, none) :: (sp.shortOptions cs).1, (sp.shortOptions cs).2)

/-- The word holds options: it starts with a dash and goes on. -/
def Spec.isOption (sp : Spec χ ω) : List χ → Bool
  | c :: _ :: _ => c == sp.dash
  | _ => false

/-- The options of a word that holds some. -/
def Spec.wordOptions (sp : Spec χ ω) (w : List χ) : List (ω × Option (List χ)) × Tail ω :=
  match w with
  | _ :: c :: cs => if c = sp.dash then sp.longOption cs else sp.shortOptions (c :: cs)
  | _ => ([], .done)

/-- The word that ends the options. -/
def Spec.lastWord (sp : Spec χ ω) : List χ := [sp.dash, sp.dash]

/-- What a scan finds. -/
structure Scan (χ ω : Type) where
  /-- The options with their arguments. -/
  found : List (ω × Option (List χ)) := []
  /-- The options were followed by an error, at which the scan stops. -/
  bad : Bool := false
  /-- The words that the options took. -/
  words : List (List χ) := []
  /-- `--` ended the options. -/
  ended : Bool := false
  /-- The other words. -/
  rest : List (List χ) := []

/-- A word with these options stands in front of what a scan found. -/
def Scan.after (os : List (ω × Option (List χ))) (ws : List (List χ)) (s : Scan χ ω) : Scan χ ω :=
  { s with found := os ++ s.found, words := ws ++ s.words }

/-- The scan of the words of a command line. -/
def Spec.scan (sp : Spec χ ω) : List (List χ) → Scan χ ω
  | [] => {}
  | w :: ws =>
    if w = sp.lastWord then { ended := true, rest := ws }
    else if sp.isOption w then
      match sp.wordOptions w with
      | (os, .done) => (sp.scan ws).after os [w]
      | (os, .takesNext o) =>
        match ws with
        | [] => { found := os, bad := true }
        | w' :: ws' => (sp.scan ws').after (os ++ [(o, some w')]) [w, w']
      | (os, .bad) => { found := os, bad := true }
    else { sp.scan ws with rest := w :: (sp.scan ws).rest }

/-- The words after the scan: the options first, then `--` if it was there, then the others. -/
def Spec.permuted (sp : Spec χ ω) (s : Scan χ ω) : List (List χ) :=
  s.words ++ (if s.ended then [sp.lastWord] else []) ++ s.rest

variable (sp : Spec χ ω)

omit [DecidableEq ω] in
theorem isOption_lastWord : sp.isOption sp.lastWord = true := by
  simp [Spec.lastWord, Spec.isOption]

/-! ## One word in front of a scan -/

theorem scan_lastWord (ws : List (List χ)) : sp.scan (sp.lastWord :: ws) = { ended := true, rest := ws } := by
  rw [Spec.scan, if_pos rfl]

theorem scan_other {w : List χ} (hw : sp.isOption w = false) (ws : List (List χ)) :
    sp.scan (w :: ws) = { sp.scan ws with rest := w :: (sp.scan ws).rest } := by
  have hne : w ≠ sp.lastWord := by
    rintro rfl
    rw [isOption_lastWord] at hw
    cases hw
  rw [Spec.scan, if_neg hne, if_neg (by simp [hw])]

theorem scan_done {w : List χ} {os : List (ω × Option (List χ))} (hne : w ≠ sp.lastWord)
    (hw : sp.isOption w = true) (ho : sp.wordOptions w = (os, .done)) (ws : List (List χ)) :
    sp.scan (w :: ws) = (sp.scan ws).after os [w] := by
  rw [Spec.scan, if_neg hne, if_pos hw, ho]

theorem scan_takesNext {w : List χ} {os : List (ω × Option (List χ))} {o : ω} (hne : w ≠ sp.lastWord)
    (hw : sp.isOption w = true) (ho : sp.wordOptions w = (os, .takesNext o)) (w' : List χ) (ws : List (List χ)) :
    sp.scan (w :: w' :: ws) = (sp.scan ws).after (os ++ [(o, some w')]) [w, w'] := by
  rw [Spec.scan, if_neg hne, if_pos hw, ho]

/-- What a scan without an error does with its first word. -/
theorem scan_cases (w : List χ) (ws : List (List χ)) (h : (sp.scan (w :: ws)).bad = false) :
    w = sp.lastWord ∨ sp.isOption w = false ∨
      (w ≠ sp.lastWord ∧ sp.isOption w = true ∧ ∃ os, sp.wordOptions w = (os, .done)) ∨
      (w ≠ sp.lastWord ∧ sp.isOption w = true ∧
        ∃ os o w' ws', sp.wordOptions w = (os, .takesNext o) ∧ ws = w' :: ws') := by
  by_cases hne : w = sp.lastWord
  · exact Or.inl hne
  by_cases hw : sp.isOption w = true
  · right; right
    rw [Spec.scan, if_neg hne, if_pos hw] at h
    rcases ho : sp.wordOptions w with ⟨os, _ | o | _⟩
    · exact Or.inl ⟨hne, hw, os, rfl⟩
    · rw [ho] at h
      cases ws with
      | nil => cases h
      | cons w' ws' => exact Or.inr ⟨hne, hw, os, o, w', ws', rfl, rfl⟩
    · rw [ho] at h
      cases h
  · exact Or.inr (Or.inl (by simpa using hw))

/-! ## Scanning again -/

theorem scan_rest {ws : List (List χ)} (h : ∀ w ∈ ws, sp.isOption w = false) : sp.scan ws = { rest := ws } := by
  induction ws with
  | nil => rfl
  | cons w ws ih =>
    rw [scan_other sp (h w List.mem_cons_self), ih fun w' hw' => h w' (List.mem_cons_of_mem _ hw')]

/-- Where the options are not ended by `--`, the other words hold none. -/
theorem rest_not_option {ws : List (List χ)} (h : (sp.scan ws).bad = false) (hend : (sp.scan ws).ended = false) :
    ∀ w ∈ (sp.scan ws).rest, sp.isOption w = false := by
  induction hn : ws.length using Nat.strong_induction_on generalizing ws with
  | _ n ih =>
    subst hn
    cases ws with
    | nil =>
      intro w hw
      cases hw
    | cons w ws =>
      rcases scan_cases sp w ws h with rfl | hw | ⟨hne, hw, os, ho⟩ | ⟨hne, hw, os, o, w', ws', ho, rfl⟩
      · rw [scan_lastWord] at hend
        cases hend
      · rw [scan_other sp hw] at h hend ⊢
        intro v hv
        rcases List.mem_cons.mp hv with rfl | hv
        · exact hw
        · exact ih ws.length (Nat.lt_succ_self _) h hend rfl v hv
      · rw [scan_done sp hne hw ho] at h hend ⊢
        exact ih ws.length (Nat.lt_succ_self _) h hend rfl
      · rw [scan_takesNext sp hne hw ho] at h hend ⊢
        exact ih ws'.length (by simp only [List.length_cons]; omega) h hend rfl

/-- The words of the options, with any other words behind them, are scanned like the first time. -/
theorem scan_words_append {ws r : List (List χ)} (h : (sp.scan ws).bad = false)
    (hr : (sp.scan ws).ended = false → ∀ w ∈ r, sp.isOption w = false) :
    sp.scan ((sp.scan ws).words ++ (if (sp.scan ws).ended then [sp.lastWord] else []) ++ r) =
      { sp.scan ws with rest := r } := by
  induction hn : ws.length using Nat.strong_induction_on generalizing ws with
  | _ n ih =>
    subst hn
    cases ws with
    | nil => exact scan_rest sp (hr rfl)
    | cons w ws =>
      rcases scan_cases sp w ws h with rfl | hw | ⟨hne, hw, os, ho⟩ | ⟨hne, hw, os, o, w', ws', ho, rfl⟩
      · rw [scan_lastWord]
        exact scan_lastWord sp r
      · rw [scan_other sp hw] at h hr ⊢
        exact ih ws.length (Nat.lt_succ_self _) h hr rfl
      · rw [scan_done sp hne hw ho] at h hr ⊢
        have hrec := ih ws.length (Nat.lt_succ_self _) h hr rfl
        show sp.scan (w :: ((sp.scan ws).words ++ (if (sp.scan ws).ended then [sp.lastWord] else []) ++ r)) = _
        rw [scan_done sp hne hw ho]
        exact congrArg (Scan.after os [w]) hrec
      · rw [scan_takesNext sp hne hw ho] at h hr ⊢
        have hrec := ih ws'.length (by simp only [List.length_cons]; omega) h hr rfl
        show sp.scan (w :: w' :: ((sp.scan ws').words ++ (if (sp.scan ws').ended then [sp.lastWord] else []) ++ r)) = _
        rw [scan_takesNext sp hne hw ho]
        exact congrArg (Scan.after (os ++ [(o, some w')]) [w, w']) hrec

/-- A second scan, over the permuted words, finds what the first one found. -/
theorem scan_permuted {ws : List (List χ)} (h : (sp.scan ws).bad = false) :
    sp.scan (sp.permuted (sp.scan ws)) = sp.scan ws :=
  scan_words_append sp h (rest_not_option sp h)

end Getopt
