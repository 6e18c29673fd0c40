import WorkflowDsl.Model.Task

/-!
# Components

A document declares components that its tasks refer to by name: authentication policies, catalogs,
problems, extensions, functions, retry policies, secrets and timeouts.
-/

namespace WorkflowDsl

/-- A remote collection of functions. -/
structure Catalog where
  endpoint : Endpoint
deriving DecidableEq, Repr

def Catalog.codec : Codec Catalog :=
  .record "CatalogDefinition" Catalog.mk <|
    .more (.required "endpoint" Endpoint.codec (·.endpoint)) .done

/-- Tasks that run before or after the tasks of a kind, or of all kinds. -/
structure Extension where
  extend : String
  condition : Option String := none
  before : NamedMap Task := {}
  after : NamedMap Task := {}
deriving BEq

namespace Extension

def codec : Codec Extension :=
  .record "ExtensionDefinition" Extension.mk <|
    .more (.required "extend" .string (·.extend)) <|
    .more (.optional "when" .string (·.condition)) <|
    .more (.omitted "before" (.namedMap Task.codec) {} NamedMap.isEmpty (·.before)) <|
    .more (.omitted "after" (.namedMap Task.codec) {} NamedMap.isEmpty (·.after)) .done

/-- Whether a task is of the kind that is extended. -/
def appliesTo (e : Extension) (t : Task) : Bool := e.extend == "all" || e.extend == t.kindName

end Extension

structure Components where
  authentications : OrderedMap Authentication := {}
  catalogs : OrderedMap Catalog := {}
  problems : OrderedMap Problem := {}
  extensions : NamedMap Extension := {}
  functions : OrderedMap Task := {}
  retries : OrderedMap RetryPolicy := {}
  secrets : List String := []
  timeouts : OrderedMap Timeout := {}
deriving BEq

namespace Components

def codec : Codec Components :=
  .record "ComponentDefinitionCollection" Components.mk <|
    .more (.omitted "authentications" (.map Authentication.codec) {} OrderedMap.isEmpty
      (·.authentications)) <|
    .more (.omitted "catalogs" (.map Catalog.codec) {} OrderedMap.isEmpty (·.catalogs)) <|
    .more (.omitted "errors" (.map Problem.codec) {} OrderedMap.isEmpty (·.problems)) <|
    .more (.omitted "extensions" (.namedMap Extension.codec) {} NamedMap.isEmpty
      (·.extensions)) <|
    .more (.omitted "functions" (.map Task.codec) {} OrderedMap.isEmpty (·.functions)) <|
    .more (.omitted "retries" (.map RetryPolicy.codec) {} OrderedMap.isEmpty (·.retries)) <|
    .more (.omitted "secrets" (.list .string) [] List.isEmpty (·.secrets)) <|
    .more (.omitted "timeouts" (.map Timeout.codec) {} OrderedMap.isEmpty (·.timeouts)) .done

def isEmpty (c : Components) : Bool :=
  c.authentications.isEmpty && c.catalogs.isEmpty && c.problems.isEmpty && c.extensions.isEmpty
    && c.functions.isEmpty && c.retries.isEmpty && c.secrets.isEmpty && c.timeouts.isEmpty

end Components

end WorkflowDsl
