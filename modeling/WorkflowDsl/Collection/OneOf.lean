/-!
# One of two alternatives

A `OneOf` holds the value of one of two slots. Values of different slots differ, even if both
slots have the same type.
-/

namespace WorkflowDsl

/-- A value of the first or of the second alternative. -/
inductive OneOf (α β : Type) where
  | first (value : α)
  | second (value : β)
deriving BEq, DecidableEq, Repr

namespace OneOf

variable {α β γ : Type}

def first? : OneOf α β → Option α
  | first a => some a
  | second _ => none

def second? : OneOf α β → Option β
  | first _ => none
  | second b => some b

def isFirst (x : OneOf α β) : Bool := x.first?.isSome

def isSecond (x : OneOf α β) : Bool := x.second?.isSome

def mapFirst (f : α → γ) : OneOf α β → OneOf γ β
  | first a => first (f a)
  | second b => second b

def mapSecond (f : β → γ) : OneOf α β → OneOf α γ
  | first a => first a
  | second b => second (f b)

/-- Makes one result of either slot. -/
def either (f : α → γ) (g : β → γ) : OneOf α β → γ
  | first a => f a
  | second b => g b

end OneOf

end WorkflowDsl
