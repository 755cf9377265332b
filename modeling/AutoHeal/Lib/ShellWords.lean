import AutoHeal.Lib.Shell
import Mathlib.Data.List.TakeWhile

/-!
# What a word of the shell may be

A word outside of quotes can be more than its characters: a reserved word, an assignment, the name
of a loop or a function, the home directory of a user, or a set of characters in a pattern.
`sensesFrom` tells the tokens of a line apart by the substitution they are in, and `readTokens` says
what each word is where it stands. Quotes around letters change none of this if nothing that a word
is rests on them: `readTokens_meant`.
-/

namespace AutoHeal.Shell

variable {α β : Type}

/-! ## Words -/

/-- The reserved words, and those that a shell may have besides. -/
def reservedWords : List Str :=
  [py "!", py "\x7b", py "\x7d", py "case", py "do", py "done", py "elif", py "else", py "esac",
    py "fi", py "for", py "if", py "in", py "then", py "until", py "while", py "[[", py "]]",
    py "coproc", py "function", py "namespace", py "select", py "time"]

/-- A character of a word, and whether it is outside of quotes. -/
abbrev Letter := Bool × CodePoint

/-- The character is outside of quotes and one of some. -/
def Letter.isBare (p : CodePoint → Bool) (x : Letter) : Bool := x.1 && p x.2

/-- The word without quotes, if it is one of some. -/
def whole (p : Str → Bool) (w : List Letter) : Option Str :=
  if w.all Prod.fst && p (w.map Prod.snd) then some (w.map Prod.snd) else none

/-- The word is reserved. -/
def reserved (w : List Letter) : Option Str := whole reservedWords.contains w

/-- The word, where it has to be a name. -/
def named (w : List Letter) : Option Str := whole (fun _ => true) w

/-- An equals sign, or the bracket of an array. -/
def isAssign (c : CodePoint) : Bool := c == 61 || c == 91

/-- The rest of a name, up to what assigns. A shell may have `+=` besides. -/
def nameEnd : List Letter → Option Str
  | [] => none
  | x :: w =>
    if Letter.isBare isAssign x then some []
    else if Letter.isBare isNameChar x then (nameEnd w).map (x.2 :: ·)
    else if Letter.isBare (· == 43) x && w.head?.any (Letter.isBare (· == 61)) then some [43]
    else none

/-- The variable that the word assigns to. -/
def assigned : List Letter → Option Str
  | [] => none
  | x :: w => if Letter.isBare isNameStart x then (nameEnd w).map (x.2 :: ·) else none

/-- What follows a tilde, up to a slash. -/
def login (w : List Letter) : List Letter := w.takeWhile fun x => !Letter.isBare (· == 47) x

/-- In an assignment a tilde may follow. -/
def separates (x : Letter) : Bool := Letter.isBare (fun c => c == 61 || c == 58) x

/-- The users whose home directories may be in the word, and whether the tilde is after a character
that separates. -/
def logins (separated : Bool) : List Letter → List (Bool × Str)
  | [] => []
  | x :: w =>
    (if Letter.isBare (· == 126) x && (login w).all Prod.fst then
      [(separated, (login w).map Prod.snd)] else []) ++ logins (separates x) w

/-- The word has a tilde where it could be in an assignment. -/
def hasTilde (w : List Letter) : Bool := (logins false w).any Prod.fst

/-- A character with a meaning in a set of characters. -/
def isSetMark (c : CodePoint) : Bool := (py "[]!^-.:=").contains c

/-- An opening bracket and what follows it. Only marks can be outside of quotes there. -/
def bracket (w : List Letter) : List Letter :=
  (w.dropWhile fun x => !Letter.isBare (· == 91) x).map fun x => (Letter.isBare isSetMark x, x.2)

/-! ## Where words stand -/

/-- A word stands where a command may begin, after an assignment, after `for`, after the name there,
after `case`, or after the name of a command. -/
inductive Stand where
  | command
  | prelude
  | name
  | loop
  | subject
  | argument
  deriving DecidableEq

/-- A reserved word is one here. -/
def Stand.reserves (s : Stand) : Bool := s == .command || s == .loop

/-- An assignment is one here. -/
def Stand.assigns (s : Stand) : Bool := s == .command || s == .prelude

/-- What a word is where it stands. -/
structure Roles where
  reserved : Option Str
  assigned : Option Str
  named : Option Str
  logins : List (Bool × Str)
  bracket : List Letter
  deriving DecidableEq

/-- A shell may expand a tilde in an argument that has the form of an assignment. -/
def roles (s : Stand) (w : List Letter) : Roles where
  reserved := if s.reserves then reserved w else none
  assigned := if s.assigns || hasTilde w then assigned w else none
  named := if s = .name then named w else none
  logins := logins false w
  bracket := bracket w

/-- A word, or an operator if it says so. -/
abbrev Token (α : Type) := Bool × List α

/-- The first character of the operator that comes next. -/
def operatorNext : List (Token Letter) → Option CodePoint
  | (true, x :: _) :: _ => some x.2
  | _ => none

def isRedirection (c : CodePoint) : Bool := c == 60 || c == 62

/-- A word before a redirection that may be its number. -/
def numbers (w : List Letter) (operator : Option CodePoint) : Bool :=
  w.all (fun x => isDigit x.2) && operator.any isRedirection

/-- Where the next word stands. -/
def Stand.next (s : Stand) (w : List Letter) (operator : Option CodePoint) : Stand :=
  match s with
  | .command =>
    match reserved w with
    | some word =>
      if word = py "case" then .subject else if word = py "for" then .name else .command
    | none =>
      if (assigned w).isSome then .prelude else if numbers w operator then .command else .argument
  | .prelude => if (assigned w).isSome || numbers w operator then .prelude else .argument
  | .name => .loop
  | .loop => if reserved w = some (py "in") then .argument else .command
  | .subject => .command
  | .argument => .argument

/-- Where a word stands that is before an operator or not. The target of a redirection is no part of
the command, and before a parenthesis is the name of a function. -/
def standing (s : Stand) (target : Bool) (operator : Option CodePoint) : Stand :=
  if target then .argument else if operator = some 40 then .name else s

/-- What the words of a command and of those after it are. After a redirection a word stands where it
would without. -/
def readTokens : Stand → Bool → List (Token Letter) → List Roles
  | _, _, [] => []
  | s, _, (true, w) :: ts =>
    if (operatorNext [(true, w)]).any isRedirection then readTokens s true ts
    else readTokens .command false ts
  | s, target, (false, w) :: ts =>
    roles (standing s target (operatorNext ts)) w ::
      readTokens (if target then s else
        (standing s target (operatorNext ts)).next w (operatorNext ts)) false ts

/-! ## Letters that are put in -/

/-- A letter, and whether it is one of a piece that was put in. -/
structure Inserted where
  letter : Letter
  own : Bool

/-- The letter in quotes, if it was put in. -/
def Inserted.meant (x : Inserted) : Letter := (x.letter.1 && !x.own, x.letter.2)

/-- Quotes make no difference to the letter. -/
def Inserted.still (x : Inserted) : Bool := !(x.letter.1 && x.own)

/-- The tildes of a word, each with what is before it, if that separates, and what the name of the
user rests on. -/
def loginGrounds (before : Option Inserted) : List Inserted → List Inserted
  | [] => []
  | x :: w =>
    (if Letter.isBare (· == 126) x.letter then
      (before.filter fun y => separates y.letter).toList ++
        x :: w.take ((login (w.map Inserted.letter)).length + 1) else []) ++ loginGrounds (some x) w

/-- What it rests on that the word is one of some. -/
def wholeGrounds (p : Str → Bool) (w : List Inserted) : List Inserted :=
  if (whole p (w.map Inserted.letter)).isSome then w else []

/-- What it rests on that the word is an assignment. -/
def assignedGrounds (w : List Inserted) : List Inserted :=
  match assigned (w.map Inserted.letter) with
  | some name => w.take (name.length + 1)
  | none => []

/-- The marks from an opening bracket on. -/
def bracketGrounds (w : List Inserted) : List Inserted :=
  (w.dropWhile fun x => !Letter.isBare (· == 91) x.letter).filter fun x =>
    Letter.isBare isSetMark x.letter

/-- The letters that what a word is rests on. -/
def grounds (s : Stand) (w : List Inserted) : List Inserted :=
  (if s.reserves then wholeGrounds reservedWords.contains w else []) ++
    (if s.assigns || hasTilde (w.map Inserted.letter) then assignedGrounds w else []) ++
    (if s = .name then wholeGrounds (fun _ => true) w else []) ++
    loginGrounds none w ++ bracketGrounds w

/-- The tokens with their letters as they are, or as they are meant. -/
def lettersBy (f : α → β) (ts : List (Token α)) : List (Token β) :=
  ts.map fun t => (t.1, t.2.map f)

/-- Quotes make no difference to what the words rest on. -/
def settled : Stand → Bool → List (Token Inserted) → Bool
  | _, _, [] => true
  | s, _, (true, w) :: ts =>
    if (operatorNext [(true, w.map Inserted.letter)]).any isRedirection then
      settled s true ts
    else settled .command false ts
  | s, target, (false, w) :: ts =>
    (grounds (standing s target (operatorNext (lettersBy Inserted.letter ts))) w).all
        Inserted.still &&
      settled (if target then s else
        (standing s target (operatorNext (lettersBy Inserted.letter ts))).next
          (w.map Inserted.letter) (operatorNext (lettersBy Inserted.letter ts))) false ts

section Meant

theorem Inserted.meant_eq {x : Inserted} (h : x.still = true) : x.meant = x.letter := by
  rcases x with ⟨⟨bare, c⟩, own⟩
  cases bare <;> cases own <;> first | rfl | cases h

/-- A letter that is outside of quotes as it is meant is so as it is. -/
theorem Inserted.letter_of_meant {x : Inserted} (h : x.meant.1 = true) : x.letter = x.meant := by
  refine (Inserted.meant_eq ?_).symm
  rcases x with ⟨⟨bare, c⟩, own⟩
  cases bare <;> cases own <;> first | rfl | cases h

theorem Inserted.isBare_of_meant {x : Inserted} {p : CodePoint → Bool}
    (h : Letter.isBare p x.meant = true) : x.letter = x.meant := by
  unfold Letter.isBare at h
  rw [Bool.and_eq_true] at h
  exact Inserted.letter_of_meant h.1

theorem Inserted.isBare_meant {x : Inserted} {p : CodePoint → Bool}
    (h : Letter.isBare p x.letter = true → x.still = true) :
    Letter.isBare p x.meant = Letter.isBare p x.letter := by
  by_cases hletter : Letter.isBare p x.letter = true
  · rw [Inserted.meant_eq (h hletter)]
  · have hmeant : ¬ Letter.isBare p x.meant = true := by
      intro hmeant
      rw [Inserted.isBare_of_meant hmeant] at hletter
      exact hletter hmeant
    rw [Bool.not_eq_true] at hletter hmeant
    rw [hletter, hmeant]

theorem whole_meant {p : Str → Bool} {w : List Inserted}
    (h : ∀ x ∈ wholeGrounds p w, x.still = true) :
    whole p (w.map Inserted.meant) = whole p (w.map Inserted.letter) := by
  by_cases hread : (whole p (w.map Inserted.letter)).isSome = true
  · rw [wholeGrounds, if_pos hread] at h
    rw [List.map_congr_left fun x hx => Inserted.meant_eq (h x hx)]
  -- what is outside of quotes as it is meant is so as it is
  · by_cases hall : (w.map Inserted.meant).all Prod.fst = true
    · have hsame : w.map Inserted.letter = w.map Inserted.meant := by
        refine List.map_congr_left fun x hx => Inserted.letter_of_meant ?_
        exact List.all_eq_true.mp hall _ (List.mem_map_of_mem hx)
      rw [hsame]
    · have hmeant : whole p (w.map Inserted.meant) = none := by
        unfold whole
        simp only [hall, Bool.false_and, Bool.false_eq_true, if_false]
      rw [Bool.not_eq_true, Option.isSome_eq_false_iff, Option.isNone_iff_eq_none] at hread
      rw [hmeant, hread]

theorem head_letter {p : CodePoint → Bool} {w : List Inserted}
    (h : (w.map Inserted.meant).head?.any (Letter.isBare p) = true) :
    (w.map Inserted.letter).head?.any (Letter.isBare p) = true := by
  cases w with
  | nil => cases h
  | cons x w =>
    rw [List.map_cons, List.head?_cons, Option.any_some] at h ⊢
    rw [Inserted.isBare_of_meant h]
    exact h

theorem nameEnd_letter {w : List Inserted} {name : Str}
    (h : nameEnd (w.map Inserted.meant) = some name) :
    nameEnd (w.map Inserted.letter) = some name := by
  induction w generalizing name with
  | nil => cases h
  | cons x w ih =>
    rw [List.map_cons, nameEnd] at h ⊢
    by_cases hend : Letter.isBare isAssign x.meant = true
    · rw [if_pos hend] at h
      rw [Inserted.isBare_of_meant hend, if_pos hend]
      exact h
    · rw [if_neg hend] at h
      by_cases hname : Letter.isBare isNameChar x.meant = true
      · rw [if_pos hname] at h
        rcases Option.map_eq_some_iff.mp h with ⟨rest, hrest, hcons⟩
        rw [Inserted.isBare_of_meant hname, if_neg hend, if_pos hname, ih hrest, Option.map_some, hcons]
      · rw [if_neg hname] at h
        split_ifs at h with hplus
        · rw [Bool.and_eq_true] at hplus
          rw [Inserted.isBare_of_meant hplus.1, if_neg hend, if_neg hname, if_pos ?_]
          · exact h
          · rw [Bool.and_eq_true]
            exact ⟨hplus.1, head_letter hplus.2⟩

theorem nameEnd_meant {w : List Inserted} {name : Str}
    (h : nameEnd (w.map Inserted.letter) = some name)
    (hstill : ∀ x ∈ w.take (name.length + 1), x.still = true) :
    nameEnd (w.map Inserted.meant) = some name := by
  induction w generalizing name with
  | nil => cases h
  | cons x w ih =>
    rw [List.take_succ_cons, List.forall_mem_cons] at hstill
    rw [List.map_cons, nameEnd] at h ⊢
    rw [Inserted.meant_eq hstill.1]
    by_cases hend : Letter.isBare isAssign x.letter = true
    · rw [if_pos hend] at h ⊢
      exact h
    · rw [if_neg hend] at h ⊢
      by_cases hname : Letter.isBare isNameChar x.letter = true
      · rw [if_pos hname] at h ⊢
        rcases Option.map_eq_some_iff.mp h with ⟨rest, hrest, rfl⟩
        rw [ih hrest hstill.2, Option.map_some]
      · rw [if_neg hname] at h ⊢
        split_ifs at h with hplus
        -- the equals sign after the plus is one of the letters too
        cases h
        have hhead : (w.map Inserted.meant).head? = (w.map Inserted.letter).head? := by
          cases w with
          | nil => rfl
          | cons y w =>
            rw [List.map_cons, List.map_cons, List.head?_cons, List.head?_cons,
              Inserted.meant_eq (hstill.2 y List.mem_cons_self)]
        rw [hhead, if_pos hplus]

theorem assigned_letter {w : List Inserted} {name : Str}
    (h : assigned (w.map Inserted.meant) = some name) :
    assigned (w.map Inserted.letter) = some name := by
  cases w with
  | nil => cases h
  | cons x w =>
    rw [List.map_cons, assigned] at h ⊢
    by_cases hstart : Letter.isBare isNameStart x.meant = true
    · rw [if_pos hstart] at h
      rcases Option.map_eq_some_iff.mp h with ⟨rest, hrest, hcons⟩
      rw [Inserted.isBare_of_meant hstart, if_pos hstart, nameEnd_letter hrest, Option.map_some, hcons]
    · rw [if_neg hstart] at h
      cases h

theorem assigned_meant {w : List Inserted} (h : ∀ x ∈ assignedGrounds w, x.still = true) :
    assigned (w.map Inserted.meant) = assigned (w.map Inserted.letter) := by
  unfold assignedGrounds at h
  cases hread : assigned (w.map Inserted.letter) with
  | none =>
    cases hmeant : assigned (w.map Inserted.meant) with
    | none => rfl
    | some name =>
      rw [assigned_letter hmeant] at hread
      cases hread
  | some name =>
    rw [hread] at h
    cases w with
    | nil => cases hread
    | cons x w =>
      simp only [List.take_succ_cons, List.forall_mem_cons] at h
      rw [List.map_cons, assigned] at hread ⊢
      rw [Inserted.meant_eq h.1]
      by_cases hstart : Letter.isBare isNameStart x.letter = true
      · rw [if_pos hstart] at hread ⊢
        rcases Option.map_eq_some_iff.mp hread with ⟨rest, hrest, rfl⟩
        rw [nameEnd_meant hrest h.2, Option.map_some]
      · rw [if_neg hstart] at hread
        cases hread

/-- The letters before one that ends a prefix, and that one, are the same. -/
theorem takeWhile_meant {p : Letter → Bool} {w : List Inserted}
    (h : ∀ x ∈ w.take (((w.map Inserted.letter).takeWhile p).length + 1), x.still = true) :
    (w.map Inserted.meant).takeWhile p = (w.map Inserted.letter).takeWhile p := by
  induction w with
  | nil => rfl
  | cons x w ih =>
    rw [List.take_succ_cons, List.forall_mem_cons] at h
    rw [List.map_cons, List.takeWhile_cons] at h ⊢
    rw [List.map_cons, List.takeWhile_cons, Inserted.meant_eq h.1]
    by_cases hp : p x.letter = true
    · rw [if_pos hp, if_pos hp, ih ?_]
      rw [if_pos hp] at h
      exact h.2
    · rw [if_neg hp, if_neg hp]

theorem logins_meant {before : Option Inserted} {w : List Inserted}
    (h : ∀ x ∈ loginGrounds before w, x.still = true) :
    logins (before.any fun x => separates x.meant) (w.map Inserted.meant) =
      logins (before.any fun x => separates x.letter) (w.map Inserted.letter) := by
  induction w generalizing before with
  | nil => rfl
  | cons x w ih =>
    rw [loginGrounds, List.forall_mem_append] at h
    have hrest := ih h.2
    rw [List.map_cons, List.map_cons, logins, logins]
    simp only [Option.any_some] at hrest
    by_cases htilde : Letter.isBare (· == 126) x.letter = true
    · rw [if_pos htilde, List.forall_mem_append, List.forall_mem_cons] at h
      rcases h.1 with ⟨hbefore, hx, hlater⟩
      have hlogin : login (w.map Inserted.meant) = login (w.map Inserted.letter) :=
        takeWhile_meant hlater
      have hseparated : (before.any fun x => separates x.meant) =
          before.any fun x => separates x.letter := by
        cases before with
        | none => rfl
        | some y =>
          rw [Option.any_some, Option.any_some]
          refine Inserted.isBare_meant fun hy => hbefore y ?_
          have hkept : separates y.letter = true := hy
          rw [Option.filter_some, if_pos hkept]
          exact List.mem_singleton_self y
      rw [hrest, hseparated, hlogin, Inserted.meant_eq hx]
    · have hmeant := Inserted.isBare_meant fun h => absurd h htilde
      simp only [hmeant, htilde, Bool.false_and, Bool.false_eq_true, if_false, List.nil_append, hrest]

theorem bracket_meant {w : List Inserted} (h : ∀ x ∈ bracketGrounds w, x.still = true) :
    bracket (w.map Inserted.meant) = bracket (w.map Inserted.letter) := by
  induction w with
  | nil => rfl
  | cons x w ih =>
    unfold bracketGrounds bracket at *
    rw [List.dropWhile_cons] at h
    rw [List.map_cons, List.map_cons, List.dropWhile_cons, List.dropWhile_cons]
    by_cases hopen : Letter.isBare (· == 91) x.letter = true
    · rw [hopen, Bool.not_true, if_neg Bool.false_ne_true] at h
      have hmarks : ∀ y ∈ x :: w, Letter.isBare isSetMark y.letter = true → y.still = true :=
        fun y hy hmark => h y (List.mem_filter.mpr ⟨hy, hmark⟩)
      have hfirst : x.still = true := by
        refine hmarks x List.mem_cons_self ?_
        unfold Letter.isBare at hopen ⊢
        rw [Bool.and_eq_true, beq_iff_eq] at hopen
        rw [hopen.1, hopen.2]
        decide
      rw [Inserted.meant_eq hfirst, hopen, Bool.not_true, if_neg Bool.false_ne_true,
        if_neg Bool.false_ne_true, List.map_cons, List.map_cons, List.map_map, List.map_map]
      -- only a mark is another letter in a set when it is in quotes
      refine congrArg _ (List.map_congr_left fun y hy => ?_)
      exact congrArg (·, y.letter.2) (Inserted.isBare_meant (hmarks y (List.mem_cons_of_mem _ hy)))
    · have hmeant := Inserted.isBare_meant fun h => absurd h hopen
      rw [Bool.not_eq_true] at hopen
      rw [hopen, Bool.not_false, if_pos rfl] at h
      rw [hmeant, hopen, Bool.not_false, if_pos rfl, if_pos rfl, ih h]

/-- What is known where a word rests on no letter that was put in outside of quotes. -/
theorem still_of_grounds {s : Stand} {w : List Inserted} (h : ∀ x ∈ grounds s w, x.still = true) :
    (s.reserves = true → reserved (w.map Inserted.meant) = reserved (w.map Inserted.letter)) ∧
      ((s.assigns || hasTilde (w.map Inserted.letter)) = true →
        assigned (w.map Inserted.meant) = assigned (w.map Inserted.letter)) ∧
      (s = .name → named (w.map Inserted.meant) = named (w.map Inserted.letter)) ∧
      logins false (w.map Inserted.meant) = logins false (w.map Inserted.letter) ∧
      bracket (w.map Inserted.meant) = bracket (w.map Inserted.letter) := by
  unfold grounds at h
  simp only [List.forall_mem_append] at h
  rcases h with ⟨⟨⟨⟨hreserves, hassigns⟩, hname⟩, hlogins⟩, hbracket⟩
  refine ⟨fun hs => ?_, fun hs => ?_, fun hs => ?_, logins_meant hlogins, bracket_meant hbracket⟩
  · rw [if_pos hs] at hreserves
    exact whole_meant hreserves
  · rw [if_pos hs] at hassigns
    exact assigned_meant hassigns
  · rw [if_pos hs] at hname
    exact whole_meant hname

/-- Quotes around letters that were put in do not change what a word is, if it rests on none of
them. -/
theorem roles_meant {s : Stand} {w : List Inserted} (h : ∀ x ∈ grounds s w, x.still = true) :
    roles s (w.map Inserted.meant) = roles s (w.map Inserted.letter) := by
  rcases still_of_grounds h with ⟨hreserves, hassigns, hname, hlogins, hbracket⟩
  have htilde : hasTilde (w.map Inserted.meant) = hasTilde (w.map Inserted.letter) := by
    unfold hasTilde
    rw [hlogins]
  unfold roles
  rw [hlogins, hbracket, htilde, Roles.mk.injEq]
  refine ⟨?_, ?_, ?_, rfl, rfl⟩
  · split_ifs with hs
    · exact hreserves hs
    · rfl
  · split_ifs with hs
    · exact hassigns hs
    · rfl
  · split_ifs with hs
    · exact hname hs
    · rfl

theorem numbers_meant (w : List Inserted) (operator : Option CodePoint) :
    numbers (w.map Inserted.meant) operator = numbers (w.map Inserted.letter) operator := by
  unfold numbers
  rw [List.all_map, List.all_map]
  rfl

/-- Nor do they change where the next word stands. -/
theorem next_meant {s : Stand} {w : List Inserted} (h : ∀ x ∈ grounds s w, x.still = true)
    (operator : Option CodePoint) :
    s.next (w.map Inserted.meant) operator = s.next (w.map Inserted.letter) operator := by
  rcases still_of_grounds h with ⟨hreserves, hassigns, -⟩
  unfold Stand.next
  cases s with
  | command => simp only [hreserves rfl, hassigns (Bool.or_eq_true_iff.mpr (Or.inl rfl)), numbers_meant]
  | prelude => simp only [hassigns (Bool.or_eq_true_iff.mpr (Or.inl rfl)), numbers_meant]
  | loop => simp only [hreserves rfl]
  | _ => rfl

theorem operatorNext_meant (ts : List (Token Inserted)) :
    operatorNext (lettersBy Inserted.meant ts) = operatorNext (lettersBy Inserted.letter ts) := by
  rcases ts with _ | ⟨⟨operator, w⟩, ts⟩
  · rfl
  · cases operator <;> cases w <;> rfl

/-- Quotes around letters that were put in do not change what the words of a line are, if none of
them rests on them. -/
theorem readTokens_meant {s : Stand} {target : Bool} {ts : List (Token Inserted)}
    (h : settled s target ts = true) :
    readTokens s target (lettersBy Inserted.meant ts) =
      readTokens s target (lettersBy Inserted.letter ts) := by
  induction ts generalizing s target with
  | nil => rfl
  | cons t ts ih =>
    rcases t with ⟨operator, w⟩
    cases operator with
    | true =>
      have hcons (f : Inserted → Letter) : lettersBy f ((true, w) :: ts) =
          (true, w.map f) :: lettersBy f ts := rfl
      have hfirst : operatorNext [(true, w.map Inserted.meant)] =
          operatorNext [(true, w.map Inserted.letter)] := operatorNext_meant [(true, w)]
      rw [settled] at h
      rw [hcons, hcons, readTokens, readTokens, hfirst]
      by_cases hredirection :
          (operatorNext [(true, w.map Inserted.letter)]).any isRedirection = true
      · rw [if_pos hredirection] at h
        rw [if_pos hredirection, if_pos hredirection, ih h]
      · rw [if_neg hredirection] at h
        rw [if_neg hredirection, if_neg hredirection, ih h]
    | false =>
      have hcons (f : Inserted → Letter) : lettersBy f ((false, w) :: ts) =
          (false, w.map f) :: lettersBy f ts := rfl
      rw [settled, Bool.and_eq_true, List.all_eq_true] at h
      rw [hcons, hcons, readTokens, readTokens, operatorNext_meant, roles_meant h.1,
        next_meant h.1, ih h.2]

end Meant

/-! ## The words of a line -/

/-- A token begins, or has a letter. -/
inductive Sense (α : Type) where
  | begins (operator : Bool)
  | letter (a : α)
  deriving DecidableEq

def Sense.map (f : α → β) : Sense α → Sense β
  | .begins operator => .begins operator
  | .letter a => .letter (f a)

def Kind.isOperator : Kind → Bool
  | .operator | .numbered => true
  | _ => false

def Kind.isLetter : Kind → Bool
  | .literal | .pattern => true
  | _ => false

def Frame.isSubstitution : Frame → Bool
  | .substitution | .backquotes => true
  | _ => false

namespace Reader

/-- The number of command substitutions that are open. -/
def depth (r : Reader) : ℕ := r.frames.countP Frame.isSubstitution

/-- The next character is not in quotes. -/
def exposes (r : Reader) : Bool :=
  context r.frames != .quoted &&
    match r.mode with
    | .plain | .dollar | .name | .opened => true
    | _ => false

/-- What is read of a character, each with the number of command substitutions around it. Where one
opens, a command begins as it does after an operator. -/
def senses (r : Reader) (c : CodePoint) (own : Bool) : List (ℕ × Sense Inserted) :=
  let emit := (r.step c).1
  let behind := (r.step c).2.depth
  (if emit.begins then [(min r.depth behind, .begins (emit.kind.any Kind.isOperator))] else []) ++
    emit.kind.toList.map (fun kind =>
      (min r.depth behind, .letter ⟨(r.exposes && kind.isLetter, c), own⟩)) ++
    if r.depth < behind then [(behind, .begins true)] else []

end Reader

/-- What is read of the rest of a text, of which some characters were put in. -/
def sensesFrom : Reader → List (CodePoint × Bool) → List (ℕ × Sense Inserted)
  | _, [] => []
  | r, x :: xs => r.senses x.1 x.2 ++ sensesFrom (r.step x.1).2 xs

def sensesBy (f : α → β) (ss : List (ℕ × Sense α)) : List (ℕ × Sense β) :=
  ss.map fun s => (s.1, s.2.map f)

/-- What is read inside a number of command substitutions. -/
def sensesAt (d : ℕ) (ss : List (ℕ × Sense α)) : List (Sense α) :=
  (ss.filter fun s => s.1 == d).map Prod.snd

/-- The letters up to the next token. -/
def lettersOf : List (Sense α) → List α
  | .letter a :: ss => a :: lettersOf ss
  | _ => []

def tokens : List (Sense α) → List (Token α)
  | [] => []
  | .begins operator :: ss => (operator, lettersOf ss) :: tokens ss
  | .letter _ :: ss => tokens ss

/-- What the words are inside a number of command substitutions. -/
def rolesAt (d : ℕ) (ss : List (ℕ × Sense Letter)) : List Roles :=
  readTokens .command false (tokens (sensesAt d ss))

theorem lettersOf_map (f : α → β) (ss : List (Sense α)) :
    lettersOf (ss.map (Sense.map f)) = (lettersOf ss).map f := by
  induction ss with
  | nil => rfl
  | cons s ss ih =>
    cases s with
    | begins operator => rfl
    | letter a => exact congrArg (f a :: ·) ih

theorem tokens_map (f : α → β) (ss : List (Sense α)) :
    tokens (ss.map (Sense.map f)) = lettersBy f (tokens ss) := by
  induction ss with
  | nil => rfl
  | cons s ss ih =>
    cases s with
    | begins operator =>
      show (operator, lettersOf (ss.map (Sense.map f))) :: tokens (ss.map (Sense.map f)) = _
      rw [lettersOf_map, ih]
      rfl
    | letter a => exact ih

theorem sensesAt_by (f : α → β) (d : ℕ) (ss : List (ℕ × Sense α)) :
    sensesAt d (sensesBy f ss) = (sensesAt d ss).map (Sense.map f) := by
  unfold sensesAt sensesBy
  rw [List.filter_map, List.map_map, List.map_map]
  rfl

/-- Quotes around what was put in do not change what the words are, if none of them rests on it. -/
theorem rolesAt_meant {d : ℕ} {ss : List (ℕ × Sense Inserted)}
    (h : settled .command false (tokens (sensesAt d ss)) = true) :
    rolesAt d (sensesBy Inserted.meant ss) = rolesAt d (sensesBy Inserted.letter ss) := by
  unfold rolesAt
  rw [sensesAt_by, sensesAt_by, tokens_map, tokens_map, readTokens_meant h]

/-! ## Pieces that stand for themselves -/

namespace Reader

variable {r : Reader} {c : CodePoint}

theorem newline_depth : r.newline.2.depth = r.depth := by
  unfold newline giveUp
  split_ifs <;> rfl

theorem backquote_depth (h : r.backquote.1.kind ≠ some .mark) : r.backquote.2.depth = r.depth := by
  unfold backquote close giveUp at *
  split_ifs at * <;> first | rfl | exact absurd rfl h

theorem delimiter_depth (h : (r.delimiter c).1.kind ≠ some .mark) :
    (r.delimiter c).2.depth = r.depth := by
  unfold delimiter at *
  split_ifs at *
  · rfl
  · exact newline_depth
  · rfl
  · rfl
  · split at h
    · exact absurd rfl h
    · rename_i frames hframes
      simp [depth, hframes, Frame.isSubstitution]
    · rfl
  · rfl

theorem unquoted_depth {digits : Bool} (h : (r.unquoted digits c).1.kind ≠ some .mark) :
    (r.unquoted digits c).2.depth = r.depth := by
  unfold unquoted at *
  split_ifs at * <;> first | rfl | exact backquote_depth h

theorem command_depth (h : (r.command c).1.kind ≠ some .mark) :
    (r.command c).2.depth = r.depth := by
  unfold command at *
  split at h
  · rfl
  · split_ifs at *
    · exact delimiter_depth h
    · exact unquoted_depth h

theorem expansion_depth (h : (r.expansion c).1.kind ≠ some .mark) :
    (r.expansion c).2.depth = r.depth := by
  unfold expansion at *
  split_ifs at *
  · exact absurd rfl h
  · exact unquoted_depth h

theorem inside_depth (h : (r.inside c).1.kind ≠ some .mark) : (r.inside c).2.depth = r.depth := by
  unfold inside at *
  split at h
  · rename_i hframes
    split_ifs at *
    · simp [depth, close, hframes, Frame.isSubstitution]
    · rfl
  · split_ifs at * <;> first | rfl | exact absurd rfl h
  · split_ifs at *
    · exact absurd rfl h
    · split at h <;> exact absurd rfl h
    · rfl
  · rfl

theorem quoted_depth (h : (r.quoted c).1.kind ≠ some .mark) : (r.quoted c).2.depth = r.depth := by
  unfold quoted at *
  split_ifs at * <;> first | rfl | exact backquote_depth h | exact inside_depth h

theorem plain_depth (h : (r.plain c).1.kind ≠ some .mark) : (r.plain c).2.depth = r.depth := by
  unfold plain at *
  split at h
  · exact command_depth h
  · exact expansion_depth h
  · exact quoted_depth h

theorem escape_depth {joined : Bool} : (r.escape joined c).2.depth = r.depth := by
  unfold escape escapeQuoted
  split_ifs <;> rfl

theorem single_depth {held : Bool} : (r.single held c).2.depth = r.depth := by
  unfold single
  split_ifs <;> rfl

theorem dollar_depth (h : (r.dollar c).1.kind ≠ some .mark) : (r.dollar c).2.depth = r.depth := by
  unfold dollar at *
  split_ifs at * <;> first | rfl | exact absurd rfl h | exact plain_depth h

theorem parameter_depth {started : Bool} (h : (r.parameter started c).1.kind ≠ some .mark) :
    (r.parameter started c).2.depth = r.depth := by
  unfold parameter at *
  split_ifs at * <;> first | rfl | exact absurd rfl h

/-- Only a mark opens or closes a command substitution. -/
theorem step_depth (h : (r.step c).1.kind ≠ some .mark) : (r.step c).2.depth = r.depth := by
  unfold step at *
  split at h
  · exact plain_depth h
  · exact single_depth
  · exact escape_depth
  · split_ifs <;> first | rfl | exact newline_depth
  · exact dollar_depth h
  · split_ifs at * <;> first | rfl | exact plain_depth h
  · split_ifs at * <;> first | exact absurd rfl h | exact plain_depth h
  · exact parameter_depth h
  · split_ifs <;> rfl
  · split_ifs at * <;> first | rfl | exact absurd rfl h
  · rfl

end Reader

/-- What is read of a token, if it is no operator and in quotes. -/
def Event.sense (code : α → CodePoint) (d : ℕ) : Event α → ℕ × Sense Letter
  | .begins => (d, .begins false)
  | .char _ a => (d, .letter (false, code a))

/-- What is read of a piece that stands for itself, with its letters in quotes. -/
def Reader.pieceSenses (r : Reader) (s : Str) : List (ℕ × Sense Letter) :=
  (pieceEvents r.begins s).map (Event.sense id r.depth)

theorem pieceEvents_sense (code : α → CodePoint) (d : ℕ) (begins : Bool) (xs : List α) :
    (pieceEvents begins xs).map (Event.sense code d) =
      (pieceEvents begins (xs.map code)).map (Event.sense id d) := by
  unfold pieceEvents
  rw [List.map_append, List.map_append, List.map_map, List.map_map, List.map_map]
  cases begins <;> rfl

/-- A step that makes no mark, with the letter in quotes. -/
theorem senses_literal {code : α → CodePoint} {r : Reader} {x : α}
    (h : ∀ kind a, .char kind a ∈ (r.step (code x)).1.events x → kind = .literal) :
    (r.step (code x)).2.depth = r.depth ∧
      sensesBy Inserted.meant (r.senses (code x) true) =
        ((r.step (code x)).1.events x).map (Event.sense code r.depth) := by
  have hliteral : ∀ kind, (r.step (code x)).1.kind = some kind → kind = .literal := by
    intro kind hkind
    refine h kind x ?_
    simp [Emit.events, hkind]
  have hdepth : (r.step (code x)).2.depth = r.depth := by
    refine Reader.step_depth fun hmark => ?_
    cases hliteral _ hmark
  refine ⟨hdepth, ?_⟩
  unfold Reader.senses Emit.events
  simp only [hdepth, Nat.min_self, lt_irrefl, if_false, List.append_nil]
  cases hkind : (r.step (code x)).1.kind with
  | none => cases (r.step (code x)).1.begins <;> simp [sensesBy, Event.sense, Sense.map]
  | some kind =>
    rw [hliteral kind hkind]
    cases (r.step (code x)).1.begins <;>
      simp [sensesBy, Event.sense, Sense.map, Inserted.meant, Kind.isOperator]

/-- What is read of a text that makes only literal characters, with its letters in quotes. -/
theorem sensesFrom_literal {code : α → CodePoint} {r : Reader} {xs : List α}
    (h : ∀ kind a, .char kind a ∈ eventsFrom code r xs → kind = .literal) :
    sensesBy Inserted.meant (sensesFrom r (xs.map fun x => (code x, true))) =
      (eventsFrom code r xs).map (Event.sense code r.depth) := by
  induction xs generalizing r with
  | nil => rfl
  | cons x xs ih =>
    rw [eventsFrom] at h ⊢
    rcases senses_literal fun kind a hmem => h kind a (List.mem_append_left _ hmem)
      with ⟨hdepth, hfirst⟩
    have hrest := ih fun kind a hmem => h kind a (List.mem_append_right _ hmem)
    rw [hdepth] at hrest
    rw [List.map_append, ← hfirst, ← hrest]
    exact List.map_append

theorem sensesFrom_append (r : Reader) (xs ys : List (CodePoint × Bool)) :
    sensesFrom r (xs ++ ys) = sensesFrom r xs ++ sensesFrom (r.after (xs.map Prod.fst)) ys := by
  induction xs generalizing r with
  | nil => rfl
  | cons x xs ih =>
    rw [List.cons_append, sensesFrom, ih, sensesFrom, List.append_assoc]
    rfl

/-- What is read of a text, whatever was put in. -/
theorem sensesFrom_letter (r : Reader) (xs : List (CodePoint × Bool)) :
    sensesBy Inserted.letter (sensesFrom r xs) =
      sensesBy Inserted.letter (sensesFrom r (xs.map fun x => (x.1, false))) := by
  induction xs generalizing r with
  | nil => rfl
  | cons x xs ih =>
    have hsenses : sensesBy Inserted.letter (r.senses x.1 x.2) =
        sensesBy Inserted.letter (r.senses x.1 false) := by
      unfold Reader.senses
      simp [sensesBy, Sense.map]
    rw [List.map_cons, sensesFrom, sensesFrom]
    unfold sensesBy at *
    rw [List.map_append, List.map_append, ih, hsenses]

namespace Reader

variable {r r' : Reader}

theorem Behind.depth (h : Behind r r') : r.depth = r'.depth := by
  unfold Reader.depth
  rw [h.frames]

/-- A step that is the same for both readers. -/
theorem Behind.senses (h : Behind r r') {c : CodePoint} (hstep : Together (r.step c) (r'.step c))
    (own : Bool) : r.senses c own = r'.senses c own := by
  unfold Reader.senses exposes
  rw [hstep.1, hstep.2.depth, h.depth, h.frames, h.mode]

end Reader

end AutoHeal.Shell
