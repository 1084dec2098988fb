import TiledAutomata.Emit.Host.Layout.Stmt

/-!
# The standard layout of host source: files
-/

namespace TiledAutomata.Emit.Host

def Writers.ofDepth : Nat → Writers
  | 0 => ⟨fun _ _ _ _ => pure false, fun _ _ => pure ()⟩
  | n + 1 => {
    node := fun x level depth isCalled => Layout.writeNode (ofDepth n) x level depth isCalled
    stmt := fun s isLast => Layout.writeStmt (ofDepth n) s isLast }

namespace Layout

open Pen

def members (w : Writers) : String → List Member → Pen
  | _, [] => pure ()
  | before, m :: ms => do
    let t := (← get).lines
    let least := if before != m.keyword || m.doc.isSome then 2 else 1
    let _ ← breakLine (t.line m.place) least .nothing
      (m.keyword = "func" && t.line m.place < t.line m.stop)
    match m with
    | .decl d => decl w d
    | .func f => func w f
    members w m.keyword ms

def file (w : Writers) (f : File) : Pen := do
  markAt f.place "package"
  space .blank
  name f.name
  members w "" f.members
  space .newline

end Layout

namespace File

def depth (f : File) : Nat := 4 * ((f.members.getLast?.map Member.stop).getD 0) + 16

/-- The text of a file in its standard layout. Numerals can be kept as they are. -/
def text (normalizes : Bool) (f : File) : String :=
  let pen := Layout.file (Writers.ofDepth f.depth) f
  (pen.run { lines := f.lines, comments := f.groups, normalizes }).2.close.text

end File

end TiledAutomata.Emit.Host
