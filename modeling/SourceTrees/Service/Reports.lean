import SourceTrees.Service.State

/-!
# Reports

How a service is described to a client: its state with all counters, and what comes of looking at a
path.
-/

set_option autoImplicit false

namespace SourceTrees

/-- The counters as an object. -/
def Counts.toJson (c : Counts) : Json :=
  .obj
    [("boot", .obj
        [("boot_operations", .int c.boot.operations), ("boot_attempts", .int c.boot.attempts),
          ("boot_failures", .int c.boot.failures)]),
      ("grammars", .obj
        [("grammars_loaded", .int c.grammars.loaded), ("cache_hits", .int c.grammars.hits),
          ("load_failures", .int c.grammars.failures)]),
      ("parsers", .obj
        [("parsers_created", .int c.parsers.created), ("cache_hits", .int c.parsers.hits),
          ("cache_misses", .int c.parsers.misses)]),
      ("service", .obj
        [("trees_built", .int c.parses.built), ("parse_failures", .int c.parses.failures),
          ("files_skipped", .int c.parses.skipped)])]

/-- The state of a service as an object. -/
def Status.toJson (s : Status) : Json :=
  .obj
    [("state", .str s.phase.name), ("engine_module", .str s.engineModule),
      ("supported_languages", Json.strings s.supported),
      ("loaded_grammars", Json.strings s.loaded), ("pooled_parsers", Json.strings s.pooled),
      ("stats", s.counts.toJson)]

/-- The parser pool as an object. -/
def PoolReport.toJson (p : PoolReport) : Json :=
  .obj
    [("pool_size", .int p.pooled.length), ("pooled_languages", Json.strings p.pooled),
      ("leases", .obj (p.leases.map fun e => (e.1, .int e.2))), ("hit_rate", .float p.hitRate)]

/-- What comes of looking at a path, as an object. -/
def PathCheck.toJson : PathCheck → Json
  | valid size => .obj [("valid", .bool true), ("size", .int size)]
  | invalid why => .obj [("valid", .bool false), ("error", .str why)]

end SourceTrees
