import TiledAutomata.Automaton
import TiledAutomata.Cache

/-!
# A cache of compiled automata

Automata are kept by fingerprint. A serial number tells one compilation from another. Descriptors
are in memory that callers can edit, so an automaton is compiled from a copy of its own.
-/

namespace TiledAutomata

/-- Descriptors by address. Whoever has an address can edit what is there. -/
structure Descriptor.Store where
  cells : Array Descriptor := #[]

namespace Descriptor.Store

def read? (s : Store) (a : Nat) : Option Descriptor := s.cells[a]?

def write (s : Store) (a : Nat) (d : Descriptor) : Store := ⟨s.cells.setIfInBounds a d⟩

def next (s : Store) : Nat := s.cells.size

def alloc (s : Store) (d : Descriptor) : Store := ⟨s.cells.push d⟩

end Descriptor.Store

/-- A compiled automaton, with its own descriptor at an address that no caller has. -/
structure ProgramCache.Kept where
  serial : Nat
  own : Nat
  fingerprint : String
  program : Program
  plan : Plan

structure ProgramCache where
  cache : Cache String ProgramCache.Kept := { capacity := 64 }

namespace ProgramCache

open Descriptor (Store)

def Kept.automaton? (k : Kept) (s : Store) : Option Automaton :=
  (s.read? k.own).map (⟨·, k.fingerprint, k.program, k.plan⟩)

def Kept.descriptor? (k : Kept) (s : Store) : Option Descriptor :=
  (s.read? k.own).bind fun d => d.clone.toOption

def create (serial : Nat) (fingerprint : String) (d : Descriptor) (s : Store) :
    Except Error Kept × Store :=
  match d.clone with
  | .error f => (.error (.within "program" (.document f)), s)
  | .ok own =>
    (((Automaton.build own).mapError (.within "program")).map fun a =>
      ⟨serial, s.next, fingerprint, a.program, a.plan⟩, s.alloc own)

def compile (c : ProgramCache) (s : Store) (serial : Nat) (a : Option Nat) :
    Except Error Kept × ProgramCache × Store :=
  match (Automaton.admit? (a.bind s.read?)).mapError (.within "program") with
  | .error e => (.error e, c, s)
  | .ok d =>
    let (r, cache, s) := c.cache.getOrCreate d.fingerprint (create serial d.fingerprint d) s
    (r, ⟨cache⟩, s)

def clear (c : ProgramCache) : ProgramCache := ⟨c.cache.clear⟩

end ProgramCache

end TiledAutomata
