/-!
# The starter configuration

The configuration that a project can start from. It shows every setting, with comments on what
each one is for.
-/

namespace ApiSurface.CommandLine

/-- The lines of the starter configuration. -/
def starterLines : List String := [
  "# apiscan configuration",
  "#",
  "# Extends the built-in recognition catalog with project-specific",
  "# constructors and model bases, and controls which files are scanned.",
  "",
  "version: \"1\"",
  "",
  "# Scan test files and test directories too",
  "include_test_files: false",
  "",
  "# Glob patterns, matched against paths relative to the scan root",
  "excluded_paths:",
  "  - \"**/migrations/**\"",
  "  - \"**/node_modules/**\"",
  "",
  "catalog:",
  "  # Constructors whose instances issue HTTP requests",
  "  http_clients:",
  "    - constructor: myproject.http.ApiClient",
  "      library: myproject",
  "      async: false",
  "",
  "  # Modules whose top-level functions issue HTTP requests",
  "  http_modules: []",
  "",
  "  # Constructors producing applications, routers or blueprints.",
  "  # framework: fastapi | flask",
  "  # kind: application | router | blueprint",
  "  route_groups:",
  "    - constructor: myproject.web.make_router",
  "      framework: fastapi",
  "      kind: router",
  "",
  "  # Constructors producing MCP tool servers",
  "  tool_servers: []",
  "",
  "  # Base classes that make their subclasses schemas.",
  "  # kind: pydantic (default) | typed_dict | named_tuple | dataclass",
  "  model_bases:",
  "    - path: myproject.models.BaseSchema",
  "      kind: pydantic"]

/-- The text of the starter configuration. -/
def starter : String := String.join (starterLines.map (· ++ "\n"))

end ApiSurface.CommandLine
