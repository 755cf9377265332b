import Mathlib.Data.List.TakeWhile
import AutoHeal.Exec.Local
import AutoHeal.Python.Filled

/-!
# Command templates

Templates of text and plain `{name}` placeholders, how `str.format` renders them and how `shlex`
splits them, and the runs of `run_command`: `runCommand_exact` says which values reach the process
as they are.
-/

namespace AutoHeal.Exec

open Server

variable {F : Type}

/-! ## Templates -/

/-- A code point that neither `str.format` nor `shlex` reads as anything but itself. -/
def isPlain (c : CodePoint) : Bool := isShlexOrdinary c && !(py "\x7b\x7d[.!:").contains c

/-- The name of a placeholder. A number would be a position. -/
structure PlainName where
  text : Str
  ne_nil : text ≠ []
  plain : text.all isPlain = true
  noNumber : asIndex text = .text

abbrev Template := List (Part CodePoint PlainName)

/-- A part of a template as it is written. Braces are doubled. -/
def written : Part CodePoint PlainName → Str
  | .lit c => if c = 123 ∨ c = 125 then [c, c] else [c]
  | .value name => 123 :: (name.text ++ [125])

/-- A template as it is written. -/
def source (template : Template) : Str := template.flatMap written

@[simp] theorem source_nil : source [] = [] := rfl

@[simp] theorem source_cons (p : Part CodePoint PlainName) (template : Template) :
    source (p :: template) = written p ++ source template := rfl

/-! ## Rendering -/

/-- The piece of a part. -/
def piece : Part CodePoint PlainName → Piece
  | .lit c => .char c
  | .value name => .field ⟨name.text, none, []⟩

theorem special_of_isPlain {c : CodePoint} (h : isPlain c = true) :
    c ≠ 123 ∧ c ≠ 125 ∧ c ≠ 91 ∧ c ≠ 46 ∧ c ≠ 33 ∧ c ≠ 58 := by
  refine ⟨?_, ?_, ?_, ?_, ?_, ?_⟩
  all_goals
    rintro rfl
    revert h
    decide

theorem nameStep_of_isPlain {c : CodePoint} (h : isPlain c = true) (name : Str) :
    FormatScan.nameStep name c = some ([], .inName (name ++ [c])) := by
  have hspecial := special_of_isPlain h
  simp [FormatScan.nameStep, hspecial]

/-- A name is read up to its brace. -/
theorem piecesFrom_inName {s : Str} (h : s.all isPlain = true) (name rest : Str) :
    piecesFrom (.inName name) (s ++ 125 :: rest) =
      .field ⟨name ++ s, none, []⟩ :: piecesFrom .text rest := by
  induction s generalizing name with
  | nil => simp [piecesFrom, FormatScan.step, FormatScan.nameStep]
  | cons c s ih =>
    rw [List.all_cons, Bool.and_eq_true] at h
    have hrest := ih h.2 (name ++ [c])
    simpa [piecesFrom, FormatScan.step, nameStep_of_isPlain h.1] using hrest

theorem piecesFrom_placeholder (name : PlainName) (rest : Str) :
    piecesFrom .text (123 :: (name.text ++ 125 :: rest)) =
      .field ⟨name.text, none, []⟩ :: piecesFrom .text rest := by
  rcases name with ⟨_ | ⟨c, s⟩, hne, hplain, _⟩
  · exact absurd rfl hne
  · rw [List.all_cons, Bool.and_eq_true] at hplain
    have hopened : FormatScan.step .opened c = some ([], .inName [c]) := by
      have hspecial := special_of_isPlain hplain.1
      rw [FormatScan.step, if_neg hspecial.1, nameStep_of_isPlain hplain.1, List.nil_append]
    show piecesFrom .opened (c :: (s ++ 125 :: rest)) = _
    simp only [piecesFrom, hopened]
    exact piecesFrom_inName hplain.2 [c] rest

/-- The pieces of a template are its parts. -/
theorem pieces_source (template : Template) :
    pieces (source template) = template.map piece := by
  unfold pieces
  induction template with
  | nil => rfl
  | cons p template ih =>
    rw [source_cons, List.map_cons, ← ih]
    cases p with
    | value name =>
      have hplaceholder := piecesFrom_placeholder name (source template)
      simpa [written, piece] using hplaceholder
    | lit c =>
      by_cases hopen : c = 123
      · subst hopen
        simp [written, piecesFrom, FormatScan.step, piece]
      · by_cases hclose : c = 125
        · subst hclose
          simp [written, piecesFrom, FormatScan.step, piece]
        · simp [written, piecesFrom, FormatScan.step, piece, hopen, hclose]

variable [PyRuntime F] (O : Type) [PyObjects F O]

/-- The parameters have a value for every placeholder. -/
def Supplies (params : Dict F) (template : Template) : Prop :=
  ∀ name : PlainName, .value name ∈ template → ∃ v, Dict.get? name.text params = some v

/-- The value of a placeholder. -/
def valueOf (params : Dict F) (name : PlainName) : PyVal F :=
  (Dict.get? name.text params).getD .none

omit [PyRuntime F] in
theorem keywords_of_strKeys {O : Type} (value : PyVal F → O) {params : Dict F}
    (hkeys : StrKeys params) : ∃ kwargs, keywords value params = .ok kwargs ∧
      ∀ s, kwargs.lookup s = (Dict.get? s params).map value := by
  induction params with
  | nil => exact ⟨[], rfl, fun _ => rfl⟩
  | cons kv params ih =>
    rcases kv with ⟨k, v⟩
    rcases hkeys _ List.mem_cons_self with ⟨name, hname⟩
    simp only at hname
    subst hname
    rcases ih fun kv hkv => hkeys kv (List.mem_cons_of_mem _ hkv) with ⟨kwargs, hkwargs, hlookup⟩
    refine ⟨(name, value v) :: kwargs, by simp [keywords, hkwargs, Except.map], fun s => ?_⟩
    by_cases hs : name = s
    · subst hs
      simp [Dict.get?, Key.isStr]
    · have hs' : (s == name) = false := by simp [Ne.symm hs]
      have hkey : Key.isStr s (.str name : Key F) = false := by simp [Key.isStr, hs]
      simp [Dict.get?, List.lookup_cons, hs', hkey, hlookup]

/-- A plain name is that of a keyword. -/
theorem fieldObject_plain (kwargs : List (Str × O)) (name : PlainName) {o : O}
    (hlookup : kwargs.lookup name.text = some o) : fieldObject F kwargs name.text = .ok o := by
  have hfirst : (name.text.takeWhile fun c => c ≠ 46 ∧ c ≠ 91) = name.text := by
    rw [List.takeWhile_eq_self_iff]
    intro c hc
    have hspecial := special_of_isPlain (List.all_eq_true.mp name.plain c hc)
    simp [hspecial]
  unfold fieldObject
  simp only [hfirst, name.noNumber, name.ne_nil, if_false, hlookup, List.drop_length, accesses]
  rfl

theorem formatWith_source (shown : PyVal F → Str) {params : Dict F} (hkeys : StrKeys params)
    {template : Template} (hsupplies : Supplies params template) :
    formatWith O (fun v => .str (shown v)) (source template) params =
      .ok (fill (fun name => shown (valueOf params name)) template) := by
  rcases keywords_of_strKeys (fun v => (PyObjects.ofVal (.str (shown v) : PyVal F) : O)) hkeys with
    ⟨kwargs, hkwargs, hlookup⟩
  unfold formatWith strDotFormat formatDepth
  rw [hkwargs, pieces_source]
  show renderPieces F _ kwargs (template.map piece) = _
  induction template with
  | nil => rfl
  | cons p template ih =>
    have hrest := ih fun name hname => hsupplies name (List.mem_cons_of_mem _ hname)
    rw [List.map_cons, renderPieces, hrest]
    cases p with
    | lit c => rfl
    | value name =>
      rcases hsupplies name List.mem_cons_self with ⟨v, hv⟩
      have hobject : fieldObject F kwargs name.text =
          .ok (PyObjects.ofVal (.str (shown v) : PyVal F) : O) :=
        fieldObject_plain O kwargs name (by rw [hlookup, hv]; rfl)
      have hformat : PyObjects.format F (PyObjects.ofVal (.str (shown v) : PyVal F) : O) [] =
          .ok (shown v) := by
        rw [PyObjects.format_str, strFormat_nil]
      have hrender : renderPiece F (formatDepth F kwargs 1) kwargs (piece (.value name)) =
          .ok (shown v) := by
        simp [renderPiece, piece, hobject, convert, hformat, bind, Except.bind]
      rw [hrender, fill_value, valueOf, hv]
      rfl

/-! ## Splitting -/

theorem written_ordinary {p : Part CodePoint PlainName} (h : ∀ c, p = .lit c → c = 123 ∨ c = 125) :
    written p ≠ [] ∧ (written p).all isShlexOrdinary = true := by
  have hbraces : isShlexOrdinary 123 = true ∧ isShlexOrdinary 125 = true := by decide
  cases p with
  | lit c =>
    rcases h c rfl with rfl | rfl
    · simp [written, hbraces]
    · simp [written, hbraces]
  | value name =>
    have hname : name.text.all isShlexOrdinary = true := by
      refine List.all_eq_true.mpr fun c hc => ?_
      have hplain := List.all_eq_true.mp name.plain c hc
      unfold isPlain at hplain
      exact (Bool.and_eq_true_iff.mp hplain).1
    simp [written, hbraces, hname]

/-- What comes next is the same for a backslash in quotes. -/
theorem role_source {st : ShlexState} (hst : st.IsProper) (c : CodePoint) (template : Template) :
    st.role (some c) (source template).head? =
      st.role (some c) (template.head?.bind Part.code) := by
  apply ShlexState.role_congr
  intro quote hnext
  have hquote : quote = 39 ∨ quote = 34 := by
    have hproper := hst.next (some c)
    rw [hnext] at hproper
    exact hproper
  cases template with
  | nil => rfl
  | cons p template =>
    cases p with
    | lit d =>
      have hhead : (source (.lit d :: template)).head? = some d := by
        rw [source_cons, written]
        split_ifs <;> rfl
      rw [hhead]
      rfl
    | value name =>
      have hhead : (source (.value name :: template)).head? = some 123 := rfl
      rw [hhead]
      rcases hquote with rfl | rfl
      · simp [Part.code]
      · simp [Part.code]

/-- The words of a template as it is written are its words, each as it is written. -/
theorem wordsFrom_source {st : ShlexState} (hst : st.IsProper) (token : Template) (begun : Bool)
    (template : Template) :
    wordsFrom some st (source token) begun (source template) =
        (wordsFrom Part.code st token begun template).map source ∧
      stateAfter some st (source template) = stateAfter Part.code st template := by
  induction template generalizing st token begun with
  | nil => cases begun <;> exact ⟨rfl, rfl⟩
  | cons p template ih =>
    have htoken : source (token ++ [p]) = source token ++ written p := by
      unfold source
      rw [List.flatMap_append, List.flatMap_singleton]
    -- a value and an escaped brace are written with several characters, all ordinary
    have hordinary : (∀ c, p = .lit c → c = 123 ∨ c = 125) →
        st.role p.code (template.head?.bind Part.code) = .kept → st.next p.code = st.next none →
        wordsFrom some st (source token) begun (source (p :: template)) =
            (wordsFrom Part.code st token begun (p :: template)).map source ∧
          stateAfter some st (source (p :: template)) = stateAfter Part.code st (p :: template) := by
      intro hp hrole hnext
      rcases written_ordinary hp with ⟨hne, hall⟩
      have htext := wordsFrom_ordinary hst hne hall (source token) begun (source template)
      have hrest := ih (hst.next none) (token ++ [p]) true
      have hafter : stateAfter Part.code st (p :: template) =
          stateAfter Part.code (st.next none) template := by
        rw [← hnext]
        rfl
      rw [source_cons, htext.1, htext.2, ← htoken, hrest.1, hrest.2, hafter, wordsFrom, hrole, hnext]
      exact ⟨rfl, rfl⟩
    cases p with
    | value name => exact hordinary (by simp) (st.role_none _) rfl
    | lit c =>
      by_cases hbrace : c = 123 ∨ c = 125
      · have hc : isShlexOrdinary c = true := by rcases hbrace with rfl | rfl <;> decide
        have hordinary' := st.next_ordinary hst hc (template.head?.bind Part.code)
        exact hordinary (by simpa using hbrace) hordinary'.1 hordinary'.2
      -- any other character is written as itself and read in the same state
      · have hwritten : written (.lit c) = [c] := by rw [written, if_neg hbrace]
        rw [source_cons, hwritten, List.singleton_append]
        refine ⟨?_, (ih (hst.next (some c)) token begun).2⟩
        rw [hwritten] at htoken
        have hrole : st.role (some c) ((source template).head?.bind some) =
            st.role (some c) (template.head?.bind Part.code) := by
          rw [Option.bind_fun_some, role_source hst]
        have hcode : (Part.lit c : Part CodePoint PlainName).code = some c := rfl
        rw [wordsFrom, wordsFrom, hrole, hcode]
        cases st.role (some c) (template.head?.bind Part.code) with
        | kept =>
          rw [← htoken]
          exact (ih (hst.next (some c)) (token ++ [.lit c]) true).1
        | gone => exact (ih (hst.next (some c)) token true).1
        | cut =>
          have hrest := (ih (hst.next (some c)) [] false).1
          rw [source_nil] at hrest
          cases begun <;> simp [hrest]

/-- The words of a template by `shlex.split`. -/
theorem shlexSplit_source (template : Template) :
    shlexSplit (source template) = (splitWords Part.code template).map (List.map source) := by
  have hbetween : ShlexState.between.IsProper := trivial
  have hsource := wordsFrom_source hbetween [] false template
  rw [source_nil] at hsource
  rw [← splitWords_some]
  unfold splitWords
  rw [hsource.1, hsource.2]
  cases stateAfter Part.code .between template <;> rfl

/-! ## Runs -/

/-- The parts of a template with the values of the placeholders. -/
def filled (params : Dict F) (template : Template) : List (Part CodePoint Str) :=
  template.map (Part.map fun name => pyStr (valueOf params name))

/-- Every run passes the words of the template to the process, each with its placeholders rendered
and every character of a value at its place. -/
structure PassedVerbatim (template : Template) (params : Dict F) (dryRun : Option Bool)
    (argv : List Str) : Prop where
  elements : ∃ elements, shlexSplit (source template) = .ok elements ∧
    List.Forall₂ (fun element arg => renderCommand O element params = .ok arg) elements argv
  places : ∃ words, intendedWords (filled params template) = .ok words ∧
    actualWords (filled params template) = .ok words ∧ argv = words.map (List.map Prod.fst)
  runs : ∀ asked r, Prog.Runs (runCommand O (source template) params dryRun) asked r →
    ∃ outcome, asked = [⟨.process argv, outcome⟩]

/-- The words of a template have no parts but its own. -/
theorem mem_of_mem_splitWords {α : Type} {code : α → Option CodePoint} {xs : List α}
    {words : List (List α)} (h : splitWords code xs = .ok words) {word : List α}
    (hword : word ∈ words) {x : α} (hx : x ∈ word) : x ∈ xs := by
  have hwords := (wordsAt_eq_ok_iff.mp h).2
  have hflat := flatten_wordsFrom code .between (fun _ : false = false => rfl) xs
  rw [hwords, List.nil_append] at hflat
  apply (keptFrom_sublist code .between xs).subset
  rw [← hflat]
  exact List.mem_flatten.mpr ⟨word, hword, hx⟩

/-- A run passes the words of the text. -/
theorem runs_runCommand {template params dryRun} {rendered : Str} {argv : List Str}
    (hrendered : renderCommand O template params = .ok rendered)
    (hargv : shlexSplit rendered = .ok argv) (hset : isSet dryRun = false) {asked : List (Made F)}
    {r : Py ExecResult} (h : Prog.Runs (runCommand O template params dryRun) asked r) :
    ∃ outcome, asked = [⟨.process argv, outcome⟩] := by
  unfold runCommand withRendered at h
  simp only [hrendered, hset, Bool.false_eq_true, if_false, spawn, hargv] at h
  rcases Prog.runs_bind_iff.mp h with ⟨_, before, after, rfl, hprocess, hlast⟩
  rcases Prog.runs_pure_iff.mp hlast with ⟨rfl, -⟩
  rcases runs_runProcess hprocess with ⟨outcome, rfl⟩
  exact ⟨outcome, rfl⟩

theorem renderCommand_source {template : Template} {params : Dict F} (hkeys : StrKeys params)
    (hsupplies : Supplies params template) :
    renderCommand O (source template) params = .ok (fill id (filled params template)) := by
  unfold filled
  rw [fill_map]
  exact formatWith_source O pyStr hkeys hsupplies

/-- The arguments are those of the template exactly when the values are harmless where they
stand. -/
theorem runCommand_exact {template : Template} {params : Dict F} {dryRun : Option Bool}
    (hkeys : StrKeys params) (hsupplies : Supplies params template) (hset : isSet dryRun = false) :
    (∃ argv, PassedVerbatim O template params dryRun argv) ↔ Harmless (filled params template) := by
  rw [← verbatim_iff]
  constructor
  · rintro ⟨argv, -, ⟨words, hintended, hactual, -⟩, -⟩
    exact ⟨words, hintended, hactual⟩
  · intro h
    rcases h with ⟨words, hintended, hactual⟩
    -- the intended words are those of the template, each filled, and the template splits alike
    rcases splitWords_of_intended hintended with ⟨parts, hparts, htexts⟩
    have hcode : ∀ p : Part CodePoint PlainName,
        (p.map fun name => pyStr (valueOf params name)).code = p.code := by
      intro p
      cases p <;> rfl
    have hsplit := splitWords_map hcode template
    rcases hown : splitWords Part.code template with e | elements
    · rw [hown] at hsplit
      cases hparts.symm.trans hsplit
    · rw [hown] at hsplit
      have hvalues : parts = elements.map (filled params) :=
        Except.ok.inj (hparts.symm.trans hsplit)
      refine ⟨words.map (List.map Prod.fst), ⟨elements.map source, ?_, ?_⟩,
        ⟨words, hintended, hactual, rfl⟩, fun asked r hruns => ?_⟩
      · rw [shlexSplit_source, hown]
        rfl
      · rw [htexts, hvalues, List.map_map, List.forall₂_map_left_iff, List.forall₂_map_right_iff,
          List.forall₂_same]
        intro element helement
        refine renderCommand_source O hkeys fun name hname => hsupplies name ?_
        exact mem_of_mem_splitWords hown helement hname
      · exact runs_runCommand O (renderCommand_source O hkeys hsupplies)
          (shlexSplit_of_actual hactual) hset hruns

/-! ## A value with a space -/

/-- A placeholder. -/
def exampleName : PlainName := ⟨py "x", by decide, by decide, by decide⟩

/-- `echo` with a placeholder. -/
def exampleTemplate : Template := (py "echo ").map .lit ++ [.value exampleName]

/-- `echo` with a placeholder in quotes. -/
def quotedTemplate : Template :=
  (py "echo \"").map .lit ++ [.value exampleName] ++ (py "\"").map .lit

def exampleParams : Dict NanFloat := [(.str (py "x"), .str (py "a b"))]

theorem strKeys_exampleParams : StrKeys exampleParams := by
  intro kv hkv
  rw [List.mem_singleton.mp hkv]
  exact ⟨_, rfl⟩

/-- In quotes the value is one argument. -/
theorem runCommand_exact_example :
    ∃ argv, PassedVerbatim (PyVal NanFloat) quotedTemplate exampleParams none argv := by
  refine (runCommand_exact (PyVal NanFloat) strKeys_exampleParams ?_ rfl).mpr (by decide)
  intro name hname
  have hone : name = exampleName := by
    simpa [quotedTemplate, py] using hname
  subst hone
  exact ⟨_, rfl⟩

/-- Without quotes it is two, where the template has one. -/
theorem runCommand_splits :
    shlexSplit (source exampleTemplate) = .ok [py "echo", py "\x7bx\x7d"] ∧
      (∀ asked r, Prog.Runs
        (runCommand (PyVal NanFloat) (source exampleTemplate) exampleParams none) asked r →
        ∃ outcome, asked = [⟨.process [py "echo", py "a", py "b"], outcome⟩]) ∧
      ¬ ∃ argv, PassedVerbatim (PyVal NanFloat) exampleTemplate exampleParams none argv := by
  have htemplate : shlexSplit (source exampleTemplate) = .ok [py "echo", py "\x7bx\x7d"] := rfl
  have hwords : shlexSplit (py "echo a b") = .ok [py "echo", py "a", py "b"] := rfl
  have hrendered : renderCommand (PyVal NanFloat) (source exampleTemplate) exampleParams =
      .ok (py "echo a b") := rfl
  refine ⟨htemplate, fun asked r h => runs_runCommand _ hrendered hwords rfl h, ?_⟩
  rintro ⟨argv, ⟨elements, helements, hrender⟩, ⟨words, -, hactual, rfl⟩, -⟩
  have hargv := shlexSplit_of_actual hactual
  have hcount := hrender.length_eq
  rw [← Except.ok.inj (htemplate.symm.trans helements),
    ← Except.ok.inj (hwords.symm.trans hargv)] at hcount
  cases hcount

end AutoHeal.Exec
