import WorkflowDsl.Codec.Basic

/-!
# Flow directives

What happens after a task: the workflow goes on (`continue`), leaves the list of tasks (`exit`),
ends (`end`), or jumps to the named task of the same list.
-/

namespace WorkflowDsl

inductive FlowDirective where
  | continue_
  | exit
  | end_
  | goto (task : String)
deriving DecidableEq, Repr

namespace FlowDirective

instance : Inhabited FlowDirective := ⟨continue_⟩

def text : FlowDirective → String
  | continue_ => "continue"
  | exit => "exit"
  | end_ => "end"
  | goto task => task

def ofText (s : String) : FlowDirective :=
  if s == "continue" then continue_
  else if s == "exit" then exit
  else if s == "end" then end_
  else goto s

/-- The task that is jumped to. -/
def target? : FlowDirective → Option String
  | goto task => some task
  | _ => none

def codec : Codec FlowDirective := Codec.string.imap ofText text

/-- A jump has to lead to a task of the same list. -/
def check (field : String) (siblings : List String) (d : FlowDirective) : Check :=
  match d.target? with
  | some task =>
    if siblings.contains task then .ok ()
    else .error (.invalidFormat field task "must name a task of the same list")
  | none => .ok ()

end FlowDirective

end WorkflowDsl
