import QueryTypes.Decimal.Number
import QueryTypes.Request
import QueryTypes.Table

/-! What a project is configured with. -/

namespace QueryTypes

/-- Where the schema comes from: files, or an endpoint that is asked with some headers. -/
structure SchemaSource where
  files : List String
  endpoint : Option String
  headers : Table String
  timeout : Float
deriving Inhabited

def SchemaSource.standard : SchemaSource := ⟨[], none, [], 30.0⟩

/-- Which files hold documents, and which tag marks them in scripts. -/
structure ClientConfig where
  includes : List String
  excludes : List String
  templateTag : String
  schema : SchemaSource
deriving Inhabited

def ClientConfig.standard : ClientConfig where
  includes := ["src/**/*.\x7bts,tsx,js,jsx,graphql,gql\x7d"]
  excludes := ["**/node_modules", "**/__tests__"]
  templateTag := defaultTag
  schema := .standard

structure Config where
  client : ClientConfig
  logLevel : String
deriving Inhabited

def Config.standard : Config := ⟨.standard, "info"⟩

end QueryTypes
