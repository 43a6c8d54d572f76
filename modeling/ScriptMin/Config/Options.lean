import ScriptMin.Config.Record
import ScriptMin.Minify

/-!
# Options from JSON

The names of all options and the types of their values. An option that is absent has its default,
by which every step and every rule is off.
-/

namespace ScriptMin.Config

open Reading

def mode : Reading Mode :=
  choice ([Mode.global, Mode.module].map fun m => (m.name, m))

def rewriteOptions : Reading RewriteOptions :=
  record "struct CompressOptions"
    [.of "passes" word32 fun o v => { o with passes := v },
     .of "max_passes" word32 fun o v => { o with maxPasses := v },
     .of "sequences" boolean fun o v => { o with sequences := v },
     .of "yield_undefined" boolean fun o v => { o with yieldUndefined := v },
     .of "undefined_to_void" boolean fun o v => { o with undefinedToVoid := v },
     .of "evaluate" boolean fun o v => { o with evaluate := v },
     .of "side_effects" boolean fun o v => { o with sideEffects := v },
     .of "dead_code" boolean fun o v => { o with deadCode := v },
     .of "drop_debugger" boolean fun o v => { o with dropDebugger := v },
     .of "conditionals" boolean fun o v => { o with conditionals := v },
     .of "if_return" boolean fun o v => { o with ifReturn := v },
     .of "join_vars" boolean fun o v => { o with joinVars := v },
     .of "properties" boolean fun o v => { o with properties := v },
     .of "loops" boolean fun o v => { o with loops := v },
     .of "blocks" boolean fun o v => { o with blocks := v }]
    .none

def renameOptions : Reading RenameOptions :=
  record "struct MangleOptions"
    [.of "top_level" boolean fun o v => { o with topLevel := v },
     .of "reserved" (list string) fun o v => { o with reserved := v }]
    .default

def style : Reading Style :=
  record "struct EmitOptions"
    [.of "beautify" boolean fun _ v => if v then .spacious else .compact]
    .compact

def options : Reading Options :=
  record "struct Options"
    [.of "top_level_mode" mode fun o v => { o with mode := v },
     .of "compress" (optional rewriteOptions) fun o v => { o with rewrite := v },
     .of "mangle" (optional renameOptions) fun o v => { o with rename := v },
     .of "emit" style fun o v => { o with style := v }]
    .default

end ScriptMin.Config
