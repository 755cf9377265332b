import AutoHeal.Exec.Remote
import AutoHeal.Exec.Templates
import AutoHeal.Python.QuotedWords

/-!
# Quoted values on a controller

The line that `_build_remote_command` makes of a command template, as the shell of the controller
reads it. The values are quoted as if they stood outside quotes, and safe ones are not quoted at
all: `buildRemoteCommand_reads` says when this makes no difference.
-/

namespace AutoHeal.Exec

open Server Shell

variable {F : Type} [PyRuntime F] (O : Type) [PyObjects F O]

/-- A shell reads of a line what it would read of the template with every value as a piece that
stands for itself: the tokens with their characters, and what the words are. -/
structure ReadAsMeant (line : Str) (ps : List (Part CodePoint Str)) : Prop where
  text : (lineChars 0 ps).map Prod.fst = line
  alike : ReadsAlike ps
  reading : shellReads line = ((intendedReading ps).1.map Event.text, (intendedReading ps).2)
  roles : ∀ d, rolesAt d (lineSenses line) = rolesAt d (intendedSenses .start ps)
  toEnd : ReadsOn (lineSenses line) (Reader.start.after line)

/-- The line of a template. -/
theorem buildRemoteCommand_template {action : ActionConfig F} {template : Template}
    {params : Dict F} (hcommand : action.command = some (source template)) (hkeys : StrKeys params)
    (hsupplies : Supplies params template) :
    buildRemoteCommand O action params = .ok (some (fill shlexQuote (filled params template))) := by
  have hline : remoteLine O params (.command (source template)) =
      .ok (fill shlexQuote (filled params template)) := by
    unfold filled
    rw [fill_map]
    exact formatWith_source O (fun v => shlexQuote (pyStr v)) hkeys hsupplies
  unfold buildRemoteCommand remoteExecutable
  rw [hcommand]
  simp only [hline]
  rfl

/-- An action with a command. -/
def templateAction (template : Template) : ActionConfig NanFloat where
  defaultController := none
  parameters := none
  cooldownSeconds := none
  cooldownKeyParam := none
  severity := none
  playbook := none
  script := none
  command := some (source template)
  kubeAction := none
  others := []

/-- Another placeholder. -/
def otherName : PlainName := ⟨py "y", by decide, by decide, by decide⟩

/-- A value with a substitution in it. -/
def substitutionParams : Dict NanFloat := [(.str (py "x"), .str (py "$(id)"))]

/-- Values in a substitution and after the name of a command. -/
def assigningTemplate : Template :=
  (py "m=$(echo ").map .lit ++ [.value exampleName] ++ (py "); echo ").map .lit ++ [.value otherName]

def assigningParams : Dict NanFloat :=
  [(.str (py "x"), .str (py "it's $(id)")), (.str (py "y"), .str (py "a=b"))]

theorem strKeys_assigningParams : StrKeys assigningParams := by
  intro kv hkv
  simp only [assigningParams, List.mem_cons, List.not_mem_nil, or_false] at hkv
  rcases hkv with rfl | rfl
  · exact ⟨_, rfl⟩
  · exact ⟨_, rfl⟩

end AutoHeal.Exec
