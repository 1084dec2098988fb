import TiledAutomata.Emit.Host.Import.Basic

/-!
# Imports that are left out

The line of an import that is left out is joined with the next, unless an empty line is above
it. Where one import is left, the comments of the last one that goes go with it.
-/

namespace TiledAutomata.Emit.Host

namespace LineTable

def pull (above below : Place) : Nat → LineTable → LineTable
  | 0, t => t
  | n + 1, t =>
    if t.saidLine above + 1 < t.saidLine below then
      pull above below n (t.join (t.saidLine above))
    else t

end LineTable

structure Omission where
  groups : List Group
  lines : LineTable
  /-- The groups of comments that go with an import. -/
  dropped : List Nat := []

namespace Omission

def sameLine? (o : Omission) (p : Place) : Option Group :=
  o.groups.find? fun g => g.stop < p && o.lines.saidLine g.stop = o.lines.saidLine p

/-- Drops the comments of an import behind which only one is left, and moves that up. -/
def leaveOne (o : Omission) (place : Place) (gone left : Spec) : Omission :=
  let dropped := gone.importDoc.toList ++ gone.importNote.toList ++
    ((o.sameLine? gone.place).map (·.number)).toList ++ o.dropped
  let docPlace := left.importDoc.bind fun n =>
    (o.groups.find? fun g => g.number = n).map Group.place
  let lines := match docPlace with
    | some p => o.lines.pull place p o.lines.count
    | none => o.lines
  let o := { o with lines, dropped }
  match o.sameLine? left.place with
  | some _ => { o with lines := o.lines.pull place left.place o.lines.count }
  | none => o

def closeGap (o : Omission) (closing : Place) (above gone : Spec) : Omission :=
  let line := o.lines.line gone.pathPlace
  if o.lines.line above.pathPlace + 1 < line || closing = 0 || line = o.lines.count then o
  else { o with lines := o.lines.join line }

def specs (name path : String) (d : Decl) : List Spec → List Spec → Omission → List Spec × Omission
  | kept, [], o => (kept.reverse, o)
  | kept, s :: ss, o =>
    if s.importName = name && s.importPath = path then
      let o := match kept.reverse ++ ss with
        | [left] => o.leaveOne d.place s left
        | _ => o
      let o := match kept with
        | above :: _ => o.closeGap d.closing above s
        | [] => o
      specs name path d kept ss o
    else specs name path d (s :: kept) ss o

def members (name path : String) : List Member → Omission → List Member × Omission
  | [], o => ([], o)
  | m :: ms, o =>
    match m.imports? with
    | none =>
      let (ms, o) := members name path ms o
      (m :: ms, o)
    | some d =>
      let (ss, o) := specs name path d [] d.specs o
      let (ms, o) := members name path ms o
      if ss.isEmpty && !d.specs.isEmpty then (ms, o) else (.decl (d.withSpecs ss) :: ms, o)

end Omission

namespace File

def withoutImport (name path : String) (f : File) : File :=
  let (members, o) := Omission.members name path f.members { groups := f.groups, lines := f.lines }
  { f with
    members
    lines := o.lines
    groups := f.groups.filter fun g => !o.dropped.contains g.number }

end File

end TiledAutomata.Emit.Host
