import AutoHeal.Python.Str

/-!
# How a shell reads a line

The token recognition of the POSIX shell, as a machine over code points with a stack of what is
open: quotes, `$(…)`, `` `…` ``, `${…}` and `$((…))`. It says where a token begins and what each
character of it is. `Reader.inert` is what a piece that only stands for itself does to the machine.

What the words then are is in `ShellWords`; aliases, and what a shell does with its commands, are left
out. The bodies of here-documents and what the standard leaves undefined are not read further, and
neither are `$'` and `$"`. The grammar of commands is not read either, so that in a substitution the
parenthesis of a `case` pattern is taken to close it.
-/

namespace AutoHeal.Shell

/-! ## States -/

/-- What is open, from the inside: double quotes, `$(`, `(`, a backquote, `${` by whether it stands
in double quotes, and `$((` with the parentheses in it. -/
inductive Frame where
  | double
  | substitution
  | group
  | backquotes
  | parameter (quoted : Bool)
  | arithmetic (depth : ℕ)
  deriving DecidableEq

/-- Between tokens, in a word, or after characters of an operator. `digits` says that the word has
only digits, without quotes. -/
inductive Place where
  | blank
  | word (digits : Bool)
  | operator (text : Str)
  deriving DecidableEq

/-- What the reader is in the middle of. `held` is a backslash in single quotes, which inside
backquotes can be an escape. `joined` says that a line that is continued could go on with a name. -/
inductive Mode where
  | plain
  | single (held : Bool)
  | escape (joined : Bool)
  | comment
  | dollar
  | name
  | opened
  | parameter (started : Bool)
  | colon
  | closing
  | unread
  deriving DecidableEq

/-- `hereDoc` says that the body of a here-document comes after the line. -/
structure Reader where
  frames : List Frame
  place : Place
  mode : Mode
  hereDoc : Bool
  deriving DecidableEq

/-- What a character is. A character that is `escaped` takes away the `backslash` before it, and one
that is a `pattern` may have a meaning where fields are split or files are named. -/
inductive Kind where
  | literal
  | pattern
  | backslash
  | escaped
  | operator
  | numbered
  | dollar
  | name
  | mark
  | unread
  deriving DecidableEq

/-- What is read of a character: whether a token begins, and what the character is in it, if it is
not a quote, an escape, a blank or in a comment. -/
structure Emit where
  begins : Bool
  kind : Option Kind
  deriving DecidableEq

/-! ## Characters -/

/-- The operators of more than one character. -/
def longOperators : List Str :=
  [py "&&", py "||", py ";;", py ";&", py "<<", py ">>", py "<&", py ">&", py "<>", py ">|",
    py "<<-"]

def isOperator (c : CodePoint) : Bool := (py "&|;<>").contains c

/-- A character that the shell keeps in a word but that may have a meaning there. A blank in an
expansion may split the word. -/
def isPattern (c : CodePoint) : Bool := (py "*?[]^!#~\x7b\x7d \t\n").contains c

def isNameStart (c : CodePoint) : Bool :=
  (65 ≤ c.val && c.val ≤ 90) || (97 ≤ c.val && c.val ≤ 122) || c == 95

def isNameChar (c : CodePoint) : Bool := isNameStart c || isDigit c

/-- A special or positional parameter. -/
def isSpecial (c : CodePoint) : Bool := isDigit c || (py "@*#?-$!").contains c

/-! ## One character -/

/-- Where tokens are recognised, in an expansion without quotes, or where quotes are open. -/
inductive Context where
  | command
  | expansion
  | quoted
  deriving DecidableEq

def context : List Frame → Context
  | .double :: _ | .parameter true :: _ | .arithmetic _ :: _ => .quoted
  | .parameter false :: _ => .expansion
  | _ => .command

/-- A character begins a token where there is none. -/
def Place.begins : Place → Bool
  | .word _ => false
  | _ => true

namespace Reader

/-- A character of a word begins it, if there is none yet. -/
def begins (r : Reader) : Bool :=
  match r.mode with
  | .single _ => false
  | _ => r.place.begins

/-- A character of a word. -/
def part (r : Reader) (kind : Kind) (mode : Mode) : Emit × Reader :=
  (⟨r.begins, some kind⟩, { r with place := .word false, mode := mode })

/-- The end of what is open. -/
def close (r : Reader) (kind : Option Kind) : Emit × Reader :=
  (⟨false, kind⟩, { r with frames := r.frames.tail, place := .word false, mode := .plain })

def giveUp (r : Reader) : Emit × Reader :=
  (⟨false, some .unread⟩, { r with place := .word false, mode := .unread })

def newline (r : Reader) : Emit × Reader :=
  if r.hereDoc then r.giveUp
  else (⟨true, some .operator⟩, { r with place := .blank, mode := .plain })

def backquote (r : Reader) : Emit × Reader :=
  if .backquotes ∈ r.frames then
    if r.frames.head? = some .backquotes then r.close (some .mark) else r.giveUp
  else
    (⟨r.begins, some .mark⟩,
      { r with frames := .backquotes :: r.frames, place := .blank, mode := .plain })

/-- After a dollar sign, in a name, or after `$(`. -/
def joins (r : Reader) : Bool :=
  match r.mode with
  | .dollar | .name | .opened => true
  | _ => false

/-- A character of a word outside quotes. `digits` says that the word still has only digits. -/
def unquoted (r : Reader) (digits : Bool) (c : CodePoint) : Emit × Reader :=
  if c = 39 then (⟨r.begins, none⟩, { r with place := .word false, mode := .single false })
  else if c = 34 then
    (⟨r.begins, none⟩,
      { r with frames := .double :: r.frames, place := .word false, mode := .plain })
  else if c = 92 then (⟨false, none⟩, { r with mode := .escape r.joins })
  else if c = 36 then r.part .dollar .dollar
  else if c = 96 then r.backquote
  else
    (⟨r.begins, some (if isPattern c then .pattern else .literal)⟩,
      { r with place := .word digits, mode := .plain })

/-- The operator that a character extends. -/
def extended (r : Reader) (c : CodePoint) : Option Str :=
  match r.place with
  | .operator text => if text ++ [c] ∈ longOperators then some (text ++ [c]) else none
  | _ => none

/-- A digit of a word that has only digits. -/
def isNumber (r : Reader) (c : CodePoint) : Bool :=
  isDigit c && (r.place.begins || r.place == .word true)

/-- A character that is no part of a word. -/
def delimits (r : Reader) (c : CodePoint) : Bool :=
  c == 32 || c == 9 || c == 10 || (c == 35 && r.place.begins) || c == 40 || c == 41 || isOperator c

/-- A number before a redirection belongs to it. -/
def operatorKind (r : Reader) (c : CodePoint) : Kind :=
  if r.place = .word true ∧ (c = 60 ∨ c = 62) then .numbered else .operator

def delimiter (r : Reader) (c : CodePoint) : Emit × Reader :=
  if c = 32 ∨ c = 9 then (⟨false, none⟩, { r with place := .blank, mode := .plain })
  else if c = 10 then r.newline
  else if c = 35 then (⟨false, none⟩, { r with place := .blank, mode := .comment })
  else if c = 40 then
    (⟨true, some .operator⟩,
      { r with frames := .group :: r.frames, place := .blank, mode := .plain })
  else if c = 41 then
    match r.frames with
    | .substitution :: _ => r.close (some .mark)
    | .group :: frames =>
      (⟨true, some .operator⟩, { r with frames := frames, place := .blank, mode := .plain })
    | _ => (⟨true, some .operator⟩, { r with place := .blank, mode := .plain })
  else (⟨true, some (r.operatorKind c)⟩, { r with place := .operator [c], mode := .plain })

/-- A character where tokens are recognised. -/
def command (r : Reader) (c : CodePoint) : Emit × Reader :=
  match r.extended c with
  | some text =>
    (⟨false, some .operator⟩,
      { r with place := .operator text, mode := .plain, hereDoc := r.hereDoc || text == py "<<" })
  | none => if r.delimits c then r.delimiter c else r.unquoted (r.isNumber c) c

/-- A character in `${…}` outside quotes. -/
def expansion (r : Reader) (c : CodePoint) : Emit × Reader :=
  if c = 125 then r.close (some .mark) else r.unquoted false c

/-- A character inside quotes that is not special in all of them. In an arithmetic expansion quotes
have no meaning. -/
def inside (r : Reader) (c : CodePoint) : Emit × Reader :=
  match r.frames with
  | .double :: _ => if c = 34 then r.close none else r.part .literal .plain
  | .parameter _ :: _ =>
    if c = 125 then r.close (some .mark)
    else if c = 34 then r.giveUp
    else r.part .literal .plain
  | .arithmetic depth :: frames =>
    if c = 40 then { r with frames := .arithmetic (depth + 1) :: frames }.part .mark .plain
    else if c = 41 then
      match depth with
      | 0 => r.part .mark .closing
      | depth + 1 => { r with frames := .arithmetic depth :: frames }.part .mark .plain
    else r.part .literal .plain
  | _ => r.part .literal .plain

/-- A character inside quotes. -/
def quoted (r : Reader) (c : CodePoint) : Emit × Reader :=
  if c = 92 then r.part .backslash (.escape r.joins)
  else if c = 36 then r.part .dollar .dollar
  else if c = 96 then r.backquote
  else r.inside c

def plain (r : Reader) (c : CodePoint) : Emit × Reader :=
  match context r.frames with
  | .command => r.command c
  | .expansion => r.expansion c
  | .quoted => r.quoted c

/-- A character in single quotes. -/
def single (r : Reader) (held : Bool) (c : CodePoint) : Emit × Reader :=
  if c = 39 then (⟨false, none⟩, { r with place := .word false, mode := .plain })
  else if .backquotes ∈ r.frames ∧ (c = 96 ∨ held = true ∧ (c = 36 ∨ c = 92)) then r.giveUp
  else r.part .literal (.single (c == 92))

/-- A character after a backslash in quotes. -/
def escapeQuoted (r : Reader) (c : CodePoint) : Emit × Reader :=
  if c = 36 ∨ c = 96 ∨ c = 34 ∨ c = 92 ∨ c = 10 then r.part .escaped .plain
  else if c = 125 ∧ r.frames.head? = some (.parameter true) then r.part .escaped .plain
  else r.part .literal .plain

/-- A character after a backslash. -/
def escape (r : Reader) (joined : Bool) (c : CodePoint) : Emit × Reader :=
  if .backquotes ∈ r.frames ∧ (c = 36 ∨ c = 96 ∨ c = 34 ∨ c = 92) then r.giveUp
  else if c = 10 ∧ joined = true then r.giveUp
  else if context r.frames = .quoted then r.escapeQuoted c
  else if c = 10 then (⟨false, none⟩, { r with mode := .plain })
  else r.part .literal .plain

/-- A character after a dollar sign. -/
def dollar (r : Reader) (c : CodePoint) : Emit × Reader :=
  if c = 123 then
    { r with frames := .parameter (decide (context r.frames = Context.quoted)) :: r.frames }.part .mark
      (.parameter false)
  else if c = 40 then
    (⟨false, some .mark⟩,
      { r with frames := .substitution :: r.frames, place := .blank, mode := .opened })
  else if isNameStart c then r.part .name .name
  else if isSpecial c then r.part .name .plain
  else if context r.frames ≠ .quoted ∧ (c = 39 ∨ c = 34) then r.giveUp
  else r.plain c

/-- A character of the parameter of `${…}`. -/
def parameter (r : Reader) (started : Bool) (c : CodePoint) : Emit × Reader :=
  if c = 125 then r.close (some .mark)
  else if isNameChar c ∨ started = false ∧ isSpecial c then r.part .name (.parameter true)
  else if c = 58 then r.part .mark .colon
  else if c = 45 ∨ c = 61 ∨ c = 63 ∨ c = 43 then r.part .mark .plain
  else if c = 37 ∨ c = 35 then
    -- a pattern is not in the quotes around it
    { r with frames := .parameter false :: r.frames.tail }.part .mark .plain
  else r.giveUp

/-- The next character. -/
def step (r : Reader) (c : CodePoint) : Emit × Reader :=
  match r.mode with
  | .plain => r.plain c
  | .single held => r.single held c
  | .escape joined => r.escape joined c
  | .comment =>
    if c = 10 then r.newline
    else if c = 96 ∧ .backquotes ∈ r.frames then r.giveUp
    else (⟨false, none⟩, r)
  | .dollar => r.dollar c
  | .name => if isNameChar c then r.part .name .name else r.plain c
  | .opened =>
    if c = 40 then
      -- no command begins, the word goes on
      { r with frames := .arithmetic 0 :: r.frames.tail, place := .word false }.part .mark .plain
    else r.plain c
  | .parameter started => r.parameter started c
  | .colon =>
    if c = 45 ∨ c = 61 ∨ c = 63 ∨ c = 43 then r.part .mark .plain else r.giveUp
  | .closing => if c = 41 then r.close (some .mark) else r.giveUp
  | .unread => r.giveUp

/-- After a piece that stands for itself. -/
def inert (r : Reader) : Reader :=
  match r.mode with
  | .comment | .unread => r
  | .single _ => { r with place := .word false, mode := .single false }
  | _ => { r with place := .word false, mode := .plain }

/-- Before the first character. -/
def start : Reader := ⟨[], .blank, .plain, false⟩

/-- Nothing is open. -/
def complete (r : Reader) : Bool :=
  r.frames == [] && (r.mode == .plain || r.mode == .dollar || r.mode == .name || r.mode == .comment)

/-- After a text. -/
def after (r : Reader) (s : Str) : Reader := s.foldl (fun r c => (r.step c).2) r

end Reader

/-! ## Texts -/

/-- A token begins, or has a character. -/
inductive Event (α : Type) where
  | begins
  | char (kind : Kind) (a : α)
  deriving DecidableEq

variable {α β : Type}

/-- What is read of a character. -/
def Emit.events (e : Emit) (a : α) : List (Event α) :=
  (if e.begins then [.begins] else []) ++ e.kind.toList.map fun kind => .char kind a

/-- What is read of the rest of a text. -/
def eventsFrom (code : α → CodePoint) : Reader → List α → List (Event α)
  | _, [] => []
  | r, x :: xs => (r.step (code x)).1.events x ++ eventsFrom code (r.step (code x)).2 xs

/-! ## Characters that stand for themselves -/

namespace Reader

variable {r : Reader} {c : CodePoint}

theorem backquote_kind : r.backquote.1.kind ≠ some .literal := by
  unfold backquote close giveUp
  split_ifs <;> simp

theorem newline_kind : r.newline.1.kind ≠ some .literal := by
  unfold newline giveUp
  split_ifs <;> simp

theorem delimiter_kind : (r.delimiter c).1.kind ≠ some .literal := by
  unfold delimiter
  split_ifs
  · simp
  · exact newline_kind
  · simp
  · simp
  · split <;> simp [close]
  · unfold operatorKind
    split_ifs <;> simp

/-- Outside quotes such a character is kept in the word. -/
theorem unquoted_literal {digits : Bool} (h : (r.unquoted digits c).1.kind = some .literal) :
    r.unquoted digits c =
      (⟨r.begins, some .literal⟩, { r with place := .word digits, mode := .plain }) := by
  unfold unquoted part at *
  split_ifs at *
  · cases h
  · exact absurd h backquote_kind
  · cases h
  · rfl

theorem command_literal (h : (r.command c).1.kind = some .literal) :
    r.command c = (⟨r.begins, some .literal⟩,
      { r with place := .word (r.isNumber c), mode := .plain }) := by
  unfold command at *
  split at h
  · cases h
  · split_ifs at *
    · exact absurd h delimiter_kind
    · exact unquoted_literal h

theorem expansion_literal (h : (r.expansion c).1.kind = some .literal) :
    r.expansion c = r.part .literal .plain := by
  unfold expansion at *
  split_ifs at *
  · cases h
  · exact unquoted_literal h

theorem inside_literal (h : (r.inside c).1.kind = some .literal) :
    r.inside c = r.part .literal .plain := by
  unfold inside at *
  split at h
  · split_ifs at *
    · cases h
    · rfl
  · split_ifs at *
    · cases h
    · cases h
    · rfl
  · split_ifs at *
    · cases h
    · split at h <;> cases h
    · rfl
  · rfl

theorem quoted_literal (h : (r.quoted c).1.kind = some .literal) :
    r.quoted c = r.part .literal .plain := by
  unfold quoted at *
  split_ifs at *
  · cases h
  · cases h
  · exact absurd h backquote_kind
  · exact inside_literal h

/-- Such a character makes a word. -/
theorem plain_literal (h : (r.plain c).1.kind = some .literal) :
    ∃ digits, r.plain c = (⟨r.begins, some .literal⟩,
      { r with place := .word digits, mode := .plain }) := by
  unfold plain at *
  split at h
  · exact ⟨_, command_literal h⟩
  · exact ⟨_, expansion_literal h⟩
  · exact ⟨_, quoted_literal h⟩

theorem escape_literal {joined : Bool} (h : (r.escape joined c).1.kind = some .literal) :
    r.escape joined c = r.part .literal .plain := by
  unfold escape escapeQuoted at *
  split_ifs at *
  · cases h
  · cases h
  · cases h
  · cases h
  · rfl
  · rfl

theorem dollar_literal (h : (r.dollar c).1.kind = some .literal) : r.dollar c = r.plain c := by
  unfold dollar at *
  split_ifs at *
  · cases h
  · cases h
  · cases h
  · cases h
  · cases h
  · rfl

theorem single_literal {held : Bool} (h : (r.single held c).1.kind = some .literal) :
    r.single held c = r.part .literal (.single (c == 92)) := by
  unfold single at *
  split_ifs at *
  · cases h
  · rfl

theorem parameter_kind {started : Bool} : (r.parameter started c).1.kind ≠ some .literal := by
  unfold parameter close part giveUp
  split_ifs <;> simp

/-- The states after a character that stands for itself. -/
inductive Kept (r : Reader) (c : CodePoint) : Reader → Prop
  | word (digits : Bool) (hmode : r.inert.mode = .plain) :
    Kept r c { r.inert with place := .word digits }
  | single (held : Bool) (hmode : r.mode = .single held) :
    Kept r c { r with place := .word false, mode := .single (c == 92) }

/-- A character that stands for itself begins a token where there is none. -/
theorem step_literal (h : (r.step c).1.kind = some .literal) :
    (r.step c).1 = ⟨r.begins, some .literal⟩ ∧ Kept r c (r.step c).2 := by
  rcases r with ⟨frames, place, mode, hereDoc⟩
  cases mode with
  | plain =>
    rcases plain_literal h with ⟨digits, hstep⟩
    have heq : step ⟨frames, place, .plain, hereDoc⟩ c = _ := hstep
    rw [heq]
    exact ⟨rfl, .word digits rfl⟩
  | single held =>
    have hstep := single_literal h
    have heq : step ⟨frames, place, .single held, hereDoc⟩ c = _ := hstep
    rw [heq]
    exact ⟨rfl, .single held rfl⟩
  | escape joined =>
    have hstep := escape_literal h
    have heq : step ⟨frames, place, .escape joined, hereDoc⟩ c = _ := hstep
    rw [heq]
    exact ⟨rfl, .word false rfl⟩
  -- a comment has no literal: it is passed over up to its newline
  | comment =>
    unfold step at h
    simp only at h
    split_ifs at h
    · exact absurd h newline_kind
    · cases h
  | dollar =>
    have hdollar := dollar_literal h
    have hplain : (plain ⟨frames, place, .dollar, hereDoc⟩ c).1.kind = some .literal := by
      rw [← hdollar]
      exact h
    rcases plain_literal hplain with ⟨digits, hstep⟩
    have heq : step ⟨frames, place, .dollar, hereDoc⟩ c = _ := hdollar.trans hstep
    rw [heq]
    exact ⟨rfl, .word digits rfl⟩
  -- a name or an opening that does not go on leaves the character to the plain step
  | name =>
    by_cases hname : isNameChar c = true
    · simp [step, hname, part] at h
    · have hplain : step ⟨frames, place, .name, hereDoc⟩ c = plain ⟨frames, place, .name, hereDoc⟩ c :=
        if_neg hname
      rw [hplain] at h ⊢
      rcases plain_literal h with ⟨digits, hstep⟩
      rw [hstep]
      exact ⟨rfl, .word digits rfl⟩
  | opened =>
    by_cases hopen : c = 40
    · simp [step, hopen, part] at h
    · have hplain : step ⟨frames, place, .opened, hereDoc⟩ c =
          plain ⟨frames, place, .opened, hereDoc⟩ c := if_neg hopen
      rw [hplain] at h ⊢
      rcases plain_literal h with ⟨digits, hstep⟩
      rw [hstep]
      exact ⟨rfl, .word digits rfl⟩
  -- inside braces every character is special, or the reader gives up
  | parameter started => exact absurd h parameter_kind
  | colon =>
    unfold step part giveUp at h
    simp only at h
    split_ifs at h
    · cases h
    · cases h
  | closing =>
    unfold step close giveUp at h
    simp only at h
    split_ifs at h
    · cases h
    · cases h
  | unread => cases h

/-! ## Single quotes -/

/-- A single quote that comes next opens a quotation. -/
def Opens (r : Reader) : Prop :=
  context r.frames ≠ .quoted ∧ (r.mode = .plain ∨ r.mode = .name ∨ r.mode = .opened)

instance : Decidable r.Opens :=
  inferInstanceAs (Decidable (context r.frames ≠ .quoted ∧ (_ ∨ _ ∨ _)))

theorem extended_apostrophe : r.extended 39 = none := by
  have hlast : ∀ text ∈ longOperators, text.getLast? ≠ some 39 := by decide
  unfold extended
  split
  · rename_i text _
    have hnot : text ++ [39] ∉ longOperators := by
      intro hmem
      exact hlast _ hmem (by simp)
    rw [if_neg hnot]
  · rfl

theorem command_apostrophe : r.command 39 =
    (⟨r.begins, none⟩, { r with place := .word false, mode := .single false }) := by
  have hdelimits : r.delimits 39 = false := by
    have hoperator : isOperator 39 = false := by decide
    simp [delimits, hoperator]
  unfold command
  rw [extended_apostrophe]
  simp [hdelimits, unquoted]

theorem plain_apostrophe (h : context r.frames ≠ .quoted) : r.plain 39 =
    (⟨r.begins, none⟩, { r with place := .word false, mode := .single false }) := by
  unfold plain
  cases hcontext : context r.frames with
  | command => exact command_apostrophe
  | expansion => rfl
  | quoted => exact absurd hcontext h

/-- In other quotes it is a character. -/
theorem quoted_apostrophe (h : context r.frames = .quoted) : (r.plain 39).1.kind ≠ none := by
  have hplain : r.plain 39 = r.inside 39 := by
    unfold plain quoted
    rw [h]
    simp
  rw [hplain]
  unfold inside part
  split <;> simp

theorem step_of_opens (h : r.Opens) : r.step 39 =
    (⟨r.begins, none⟩, { r with place := .word false, mode := .single false }) := by
  have hname : isNameChar 39 = false := by decide
  rcases h with ⟨hcontext, hmode | hmode | hmode⟩
  · simp only [step, hmode]
    exact plain_apostrophe hcontext
  · simp only [step, hmode, hname]
    exact plain_apostrophe hcontext
  · simp only [step, hmode]
    exact plain_apostrophe hcontext

/-- A single quote that is no part of a token opens a quotation, closes one or is in a comment. -/
theorem opens_or_of_apostrophe (h : (r.step 39).1.kind = none) :
    r.Opens ∨ (∃ held, r.mode = .single held) ∨ r.mode = .comment := by
  have hplain : (r.plain 39).1.kind = none → context r.frames ≠ .quoted :=
    fun hkind hcontext => quoted_apostrophe hcontext hkind
  cases hmode : r.mode with
  | plain =>
    simp only [step, hmode] at h
    exact Or.inl ⟨hplain h, Or.inl hmode⟩
  | single held => exact Or.inr (Or.inl ⟨held, rfl⟩)
  | escape joined =>
    simp only [step, hmode, escape, escapeQuoted] at h
    revert h
    split_ifs <;> simp_all [part]
  | comment => exact Or.inr (Or.inr rfl)
  | dollar =>
    have hspecial : isNameStart 39 = false ∧ isSpecial 39 = false := by decide
    -- `$'` is not read outside of double quotes; inside the quote is a literal
    by_cases hcontext : context r.frames = .quoted
    · simp only [step, hmode, dollar, hspecial, hcontext] at h
      exact absurd (by simpa using h) (quoted_apostrophe hcontext)
    · simp [step, hmode, dollar, hspecial, hcontext, giveUp] at h
  | name =>
    have hname : isNameChar 39 = false := by decide
    simp only [step, hmode, hname] at h
    exact Or.inl ⟨hplain (by simpa using h), Or.inr (Or.inl hmode)⟩
  | opened =>
    simp only [step, hmode] at h
    exact Or.inl ⟨hplain (by simpa using h), Or.inr (Or.inr hmode)⟩
  | parameter started =>
    have hname : isNameChar 39 = false ∧ isSpecial 39 = false := by decide
    simp [step, hmode, parameter, hname, giveUp] at h
  | colon => simp [step, hmode, giveUp] at h
  | closing => simp [step, hmode, giveUp] at h
  | unread => simp [step, hmode, giveUp] at h

/-! ## Texts that stand for themselves -/

/-- Every character stands for itself. -/
def TakesAll : Reader → Str → Prop
  | _, [] => True
  | r, c :: s => (r.step c).1.kind = some .literal ∧ TakesAll (r.step c).2 s

instance decidableTakesAll : (r : Reader) → (s : Str) → Decidable (r.TakesAll s)
  | _, [] => .isTrue trivial
  | r, c :: s =>
    have := decidableTakesAll (r.step c).2 s
    inferInstanceAs (Decidable ((r.step c).1.kind = some .literal ∧ TakesAll (r.step c).2 s))

/-- A reader that may take a word for a number, and one that knows better. -/
def Behind (r r' : Reader) : Prop :=
  r = r' ∨ r.place = .word false ∧ r' = { r with place := .word true } ∧
    (r.mode = .plain ∨ ∃ joined, r.mode = .escape joined)

theorem Behind.frames {r r' : Reader} (h : Behind r r') : r.frames = r'.frames := by
  rcases h with rfl | ⟨-, rfl, -⟩
  · rfl
  · rfl

theorem Behind.mode {r r' : Reader} (h : Behind r r') : r.mode = r'.mode := by
  rcases h with rfl | ⟨-, rfl, -⟩
  · rfl
  · rfl

theorem Behind.inert {r r' : Reader} (h : Behind r r') : r.inert = r'.inert := by
  rcases h with rfl | ⟨-, rfl, hmode | ⟨joined, hmode⟩⟩
  · rfl
  · simp [Reader.inert, hmode]
  · simp [Reader.inert, hmode]

theorem Behind.begins {r r' : Reader} (h : Behind r r') : r.begins = r'.begins := by
  rcases h with rfl | ⟨hplace, rfl, hmode | ⟨joined, hmode⟩⟩
  · rfl
  · simp [Reader.begins, hmode, hplace, Place.begins]
  · simp [Reader.begins, hmode, hplace, Place.begins]

theorem inert_inert (r : Reader) : r.inert.inert = r.inert := by
  rcases r with ⟨frames, place, mode, hereDoc⟩
  cases mode <;> rfl

theorem Kept.begins {r' : Reader} (h : Kept r c r') : r'.begins = false := by
  cases h with
  | word digits hmode => simp [Reader.begins, hmode, Place.begins]
  | single => rfl

/-- The text does not end in the middle of an escape in single quotes. -/
theorem Kept.behind {r' : Reader} (h : Kept r c r') (hsingle : ∀ held, r.mode = .single held → c ≠ 92) :
    Behind r.inert r' := by
  cases h with
  | word digits hmode =>
    have hplace : r.inert.place = .word false := by
      rcases r with ⟨frames, place, mode, hereDoc⟩
      cases mode <;> first | rfl | cases hmode
    cases digits with
    | false =>
      left
      rw [← hplace]
    | true => exact Or.inr ⟨hplace, rfl, Or.inl hmode⟩
  | single held hmode =>
    left
    have hheld : (c == 92) = false := by simpa using hsingle held hmode
    rw [hheld, inert, hmode]

theorem behind_of_takesAll {s : Str} (h : r.TakesAll s) (hne : s ≠ [])
    (hsingle : ∀ held, r.mode = .single held → 92 ∉ s) : Behind r.inert (r.after s) := by
  induction s generalizing r with
  | nil => exact absurd rfl hne
  | cons c s ih =>
    have hkept := (step_literal h.1).2
    have hfirst : Behind r.inert (r.step c).2 := by
      refine hkept.behind fun held hmode hc => hsingle held hmode ?_
      rw [hc]
      exact List.mem_cons_self
    have hinert : (r.step c).2.inert = r.inert := by
      rw [← hfirst.inert, inert_inert]
    by_cases hlast : s = []
    · subst hlast
      exact hfirst
    · have hrest := ih h.2 hlast ?_
      · rw [hinert] at hrest
        exact hrest
      · intro held hmode hmem
        generalize (r.step c).2 = r' at hkept hmode
        cases hkept with
        | word digits hplain => cases hplain.symm.trans hmode
        | single held' hmode' => exact hsingle held' hmode' (List.mem_cons_of_mem _ hmem)

/-! ## The two readers -/

/-- The step is the same for both, and keeps them as they are. -/
def Together (x y : Emit × Reader) : Prop := x.1 = y.1 ∧ Behind x.2 y.2

theorem Together.same (x : Emit × Reader) : Together x x := ⟨rfl, Or.inl rfl⟩

theorem unquoted_together (hplace : r.place = .word false) (digits : Bool) (c : CodePoint) :
    Together (r.unquoted false c) ({ r with place := .word true }.unquoted digits c) := by
  rcases r with ⟨frames, place, mode, hereDoc⟩
  simp only at hplace
  subst hplace
  unfold unquoted backquote
  simp only
  split_ifs
  · exact .same _
  · exact .same _
  · exact ⟨rfl, Or.inr ⟨rfl, rfl, Or.inr ⟨_, rfl⟩⟩⟩
  · exact .same _
  · exact .same _
  · exact .same _
  · exact .same _
  · cases digits with
    | false => exact .same _
    | true => exact ⟨rfl, Or.inr ⟨rfl, rfl, Or.inl rfl⟩⟩
  · cases digits with
    | false => exact .same _
    | true => exact ⟨rfl, Or.inr ⟨rfl, rfl, Or.inl rfl⟩⟩

/-- Only the second takes a redirection to have a number. -/
def Differ (x y : Emit × Reader) : Prop :=
  x.1 = ⟨true, some .operator⟩ ∧ y.1 = ⟨true, some .numbered⟩

theorem delimiter_together (hplace : r.place = .word false) (c : CodePoint) :
    Together (r.delimiter c) ({ r with place := .word true }.delimiter c) ∨
      Differ (r.delimiter c) ({ r with place := .word true }.delimiter c) := by
  rcases r with ⟨frames, place, mode, hereDoc⟩
  simp only at hplace
  subst hplace
  unfold delimiter newline
  simp only
  split_ifs
  · exact Or.inl (.same _)
  · exact Or.inl (.same _)
  · exact Or.inl (.same _)
  · exact Or.inl (.same _)
  · exact Or.inl (.same _)
  · left
    split <;> exact .same _
  · by_cases hredirect : c = 60 ∨ c = 62
    · right
      simp [Differ, operatorKind, hredirect]
    · left
      simp only [operatorKind, hredirect, and_false, if_false]
      exact .same _

theorem command_together (hplace : r.place = .word false) (c : CodePoint) :
    Together (r.command c) ({ r with place := .word true }.command c) ∨
      Differ (r.command c) ({ r with place := .word true }.command c) := by
  have hextended : r.extended c = none := by simp [extended, hplace]
  have hextended' : { r with place := .word true }.extended c = none := by simp [extended]
  have hdelimits : { r with place := .word true }.delimits c = r.delimits c := by
    simp [delimits, hplace, Place.begins]
  have hnumber : r.isNumber c = false := by simp [isNumber, hplace, Place.begins]
  unfold command
  rw [hextended, hextended', hdelimits, hnumber]
  by_cases hend : r.delimits c = true
  · simp only [hend, if_true]
    exact delimiter_together hplace c
  · simp only [hend, Bool.false_eq_true, if_false]
    exact Or.inl (unquoted_together hplace _ c)

theorem expansion_together (hplace : r.place = .word false) (c : CodePoint) :
    Together (r.expansion c) ({ r with place := .word true }.expansion c) := by
  unfold expansion
  split_ifs
  · exact .same _
  · exact unquoted_together hplace _ c

theorem inside_word (frames : List Frame) (digits : Bool) (mode : Mode) (hereDoc : Bool)
    (c : CodePoint) :
    inside ⟨frames, .word digits, mode, hereDoc⟩ c = inside ⟨frames, .word false, mode, hereDoc⟩ c := by
  rcases frames with _ | ⟨frame, frames⟩
  · rfl
  · cases frame with
    | arithmetic depth => cases depth <;> rfl
    | _ => rfl

theorem quoted_together (hplace : r.place = .word false) (c : CodePoint) :
    Together (r.quoted c) ({ r with place := .word true }.quoted c) := by
  rcases r with ⟨frames, place, mode, hereDoc⟩
  simp only at hplace
  subst hplace
  unfold quoted backquote
  rw [inside_word]
  simp only
  split_ifs
  all_goals exact .same _

theorem plain_together (hplace : r.place = .word false) (c : CodePoint) :
    Together (r.plain c) ({ r with place := .word true }.plain c) ∨
      Differ (r.plain c) ({ r with place := .word true }.plain c) := by
  unfold plain
  cases context r.frames with
  | command => exact command_together hplace c
  | expansion => exact Or.inl (expansion_together hplace c)
  | quoted => exact Or.inl (quoted_together hplace c)

/-- A step of both is the same or makes a number part of a redirection. -/
theorem Behind.step {r r' : Reader} (h : Behind r r') (c : CodePoint) :
    Together (r.step c) (r'.step c) ∨ Differ (r.step c) (r'.step c) := by
  rcases h with rfl | ⟨hplace, rfl, hmode | ⟨joined, hmode⟩⟩
  · exact Or.inl (.same _)
  · have hplain := plain_together hplace c
    simp only [Reader.step, hmode] at hplain ⊢
    exact hplain
  · left
    simp only [Reader.step, hmode]
    unfold Reader.escape Reader.escapeQuoted
    rcases r with ⟨frames, place, mode, hereDoc⟩
    simp only at hplace hmode
    subst hplace hmode
    simp only
    split_ifs
    · exact .same _
    · exact .same _
    · exact .same _
    · exact .same _
    · exact .same _
    · exact ⟨rfl, Or.inr ⟨rfl, rfl, Or.inl rfl⟩⟩
    · exact .same _

end Reader

/-- What is read of a piece that stands for itself. -/
def pieceEvents (begins : Bool) (xs : List α) : List (Event α) :=
  (if begins then [.begins] else []) ++ xs.map (.char .literal)

theorem eventsFrom_of_takesAll {code : α → CodePoint} {r : Reader} {xs : List α}
    (h : r.TakesAll (xs.map code)) (hne : xs ≠ [] ∨ r.begins = false) :
    eventsFrom code r xs = pieceEvents r.begins xs := by
  induction xs generalizing r with
  | nil =>
    rcases hne with hne | hbegins
    · exact absurd rfl hne
    · rw [hbegins]
      rfl
  | cons x xs ih =>
    rcases Reader.step_literal h.1 with ⟨hemit, hkept⟩
    rw [eventsFrom, hemit, ih h.2 (Or.inr hkept.begins), hkept.begins]
    simp [Emit.events, pieceEvents]

theorem eventsFrom_append (code : α → CodePoint) (r : Reader) (xs ys : List α) :
    eventsFrom code r (xs ++ ys) =
      eventsFrom code r xs ++ eventsFrom code (r.after (xs.map code)) ys := by
  induction xs generalizing r with
  | nil => rfl
  | cons x xs ih =>
    rw [List.cons_append, eventsFrom, ih, eventsFrom, List.append_assoc]
    rfl

end AutoHeal.Shell
