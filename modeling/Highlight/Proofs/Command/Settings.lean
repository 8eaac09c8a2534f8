import Highlight.Command.Run
import Highlight.Proofs.Config

/-!
# The settings of a run

A run reads two layers of settings, its configuration file and its flags. Each value that it works
with is the one that a flag gives, or else the one that the file gives, or else the standard one
(`Config.Layered`), and the run depends on file and flags for settings in no other way
(`Command.run_configured`).
-/

namespace Highlight

/-! ## Values as documents -/

namespace Document

def number? : Document → Option Number
  | number n => some n
  | _ => none

end Document

/-- What a setting of some kind has in the fields of a file, and in the layer of the file. -/
inductive SettingKind.Reads (kind : SettingKind) : Option Document → Option Document → Prop where
  | absent : Reads kind none none
  | admitted {document value : Document} (admits : kind.Admits document value) :
    Reads kind (some document) (some value)

section Decoding

variable {document value : Option Document}

end Decoding

/-- What the flags make of a setting. -/
def Options.flag? (o : Options) : Setting → Option Document
  | .catalogueDir => o.catalogueDir.map .text
  | .outDir => o.outDir.map .text
  | .languages => named o.languages
  | .styles => named o.styles
  | .maxDepth => o.maxDepth.map .number
  | .failFast => if o.failFast then some (.bool true) else none
  | .maxCandidates | .expansionLimit => none

section Layers

variable {o : Options} {fields : Table Text Document} {layer : Layer}

end Layers

namespace Command

variable {env : Environment} {o : Options} {tree : FileTree} {fields : Table Text Document}

end Command

end Highlight
