import WorkflowDsl.Model.Resource

/-!
# Data models

What a workflow or a task takes in, puts out and exports to the context: a schema of the data and
an expression or template that filters it.
-/

namespace WorkflowDsl

structure InputModel where
  schema : Option Schema := none
  source : Option Node := none
deriving BEq, Repr

def InputModel.codec : Codec InputModel :=
  .record "InputDataModelDefinition" InputModel.mk <|
    .more (.optional "schema" Schema.codec (·.schema)) <|
    .more (.optional "from" .node (·.source)) .done

structure OutputModel where
  schema : Option Schema := none
  target : Option Node := none
deriving BEq, Repr

def OutputModel.codec : Codec OutputModel :=
  .record "OutputDataModelDefinition" OutputModel.mk <|
    .more (.optional "schema" Schema.codec (·.schema)) <|
    .more (.optional "as" .node (·.target)) .done

structure ExportModel where
  schema : Option Schema := none
  target : Option Node := none
deriving BEq, Repr

def ExportModel.codec : Codec ExportModel :=
  .record "ExportDefinition" ExportModel.mk <|
    .more (.optional "schema" Schema.codec (·.schema)) <|
    .more (.optional "as" .node (·.target)) .done

/-- Checks the schema of a data model that stands in `field`. -/
def checkSchema (field : String) (schema : Option Schema) : Check :=
  match schema with
  | some s => s.check s!"{field}.schema"
  | none => .ok ()

end WorkflowDsl
