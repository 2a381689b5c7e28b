import ApiSurface.Config.Basic
import ApiSurface.Yaml.Visit

/-!
# Reading configurations

How a configuration is read from a document. Every setting may be missing; unknown keys mean
nothing; a known key may stand only once.
-/

namespace ApiSurface

open ApiSurface.Yaml (Document Visit)

def HttpClientEntry.ofYaml (d : Document) (v : Yaml) : Visit HttpClientEntry := do
  let p ← d.pairs v
  pure ⟨← d.required p "constructor" Document.text, ← d.required p "library" Document.text,
    ← d.optional p "async" Document.bool false⟩

def HttpModuleEntry.ofYaml (d : Document) (v : Yaml) : Visit HttpModuleEntry := do
  let p ← d.pairs v
  pure ⟨← d.required p "module" Document.text, ← d.required p "library" Document.text⟩

def RouteGroupEntry.ofYaml (d : Document) (v : Yaml) : Visit RouteGroupEntry := do
  let p ← d.pairs v
  pure ⟨← d.required p "constructor" Document.text, ← d.required p "framework" Document.text,
    ← d.required p "kind" Document.text⟩

def ToolServerEntry.ofYaml (d : Document) (v : Yaml) : Visit ToolServerEntry := do
  let p ← d.pairs v
  pure ⟨← d.required p "constructor" Document.text,
    ← d.optional p "framework" Document.text defaultFramework⟩

def ModelBaseEntry.ofYaml (d : Document) (v : Yaml) : Visit ModelBaseEntry := do
  let p ← d.pairs v
  pure ⟨← d.required p "path" Document.text,
    ← d.optional p "kind" (Document.nullable Document.text) none⟩

def CatalogEntries.ofYaml (d : Document) (v : Yaml) : Visit CatalogEntries := do
  let p ← d.pairs v
  pure ⟨← d.optional p "http_clients" (Document.list HttpClientEntry.ofYaml) [],
    ← d.optional p "http_modules" (Document.list HttpModuleEntry.ofYaml) [],
    ← d.optional p "route_groups" (Document.list RouteGroupEntry.ofYaml) [],
    ← d.optional p "tool_servers" (Document.list ToolServerEntry.ofYaml) [],
    ← d.optional p "model_bases" (Document.list ModelBaseEntry.ofYaml) []⟩

namespace Config

def ofYaml (d : Document) (v : Yaml) : Visit Config := do
  let p ← d.pairs v
  pure ⟨← d.optional p "version" Document.text "",
    ← d.optional p "include_test_files" (Document.nullable Document.bool) none,
    ← d.optional p "excluded_paths" (Document.list Document.text) [],
    ← d.optional p "catalog" CatalogEntries.ofYaml .none⟩

/-- Read a configuration. -/
def read? (text : String) : Option Config :=
  (Document.read? text).bind fun d => ((ofYaml d d.root).run 0).map (·.1)

end Config

end ApiSurface
