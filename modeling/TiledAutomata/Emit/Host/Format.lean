import TiledAutomata.Emit.Host.Import.Insert
import TiledAutomata.Emit.Host.Import.Omit
import TiledAutomata.Emit.Host.Import.Order
import TiledAutomata.Emit.Host.Layout.File
import TiledAutomata.Emit.Host.Reader.File

/-!
# Formatted source

The layout of a text is that of what it means, comments included. It is taken twice, since a
comment may find its column only then.
-/

namespace TiledAutomata.Emit.Host

def File.withImportsFor (f : File) (rs : List Reference) : File :=
  let (unused, missing) := Import.changes f rs
  let f := unused.foldl (fun f i => f.withoutImport i.name i.path) f
  missing.foldl (fun f p => f.withImport p) f

def format (text : String) : Option String := do
  let f ← File.ofText text
  let f := (f.withImportsFor (← f.references?)).mergeImports.sortImports
  let g ← File.ofText (breakImports (f.text false) f.importBreaks)
  return g.text true

end TiledAutomata.Emit.Host
