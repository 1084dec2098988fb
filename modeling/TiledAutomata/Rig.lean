import TiledAutomata.Composite
import TiledAutomata.Kernel
import TiledAutomata.Packed
import TiledAutomata.Registry
import TiledAutomata.Scripted

/-!
# A world of simulators

A rig holds the data of all simulators that were built in it. A handle tells how to use
one of them, and what it is.
-/

namespace TiledAutomata

structure Rig where
  journal : Journal := []
  cpus : Array Cpu := #[]
  idles : Array Idle := #[]
  scripts : Array Scripted := #[]
  packs : Array Packed := #[]
  allocators : Array Allocator := #[]
  kernels : Array Kernel := #[]
  devices : Array Device := #[]
  driver : Adapter.Driver := {}
  kernelLogger : Logger := none
  /-- The device that kernels are built on unless they are told otherwise. -/
  provider : Option Provider := none

namespace Rig

inductive Kind where
  | cpu (c : Slot Rig Cpu)
  | kernel (k : Slot Rig Kernel)
  | idle
  | scripted (s : Slot Rig Scripted)
  | packed (p : Slot Rig Packed)
  | composite (routes : Array Composite.Route) (components : Nat)
  | named (name : String)

structure Handle where
  sim : Simulator Rig
  kind : Kind

def entry {α : Type} (get : Rig → Array α) (set : Rig → Array α → Rig) (n : Nat) (default : α) :
    Slot Rig α :=
  ⟨fun r => (get r).getD n default, fun r a => set r ((get r).setIfInBounds n a)⟩

def add {α : Type} (get : Rig → Array α) (set : Rig → Array α → Rig) (a : α) :
    Act Rig (Slot Rig α) := do
  let r ← MonadState.get
  MonadState.set (set r ((get r).push a))
  return entry get set (get r).size a

def journalSlot : Slot Rig Journal := ⟨(·.journal), fun r j => { r with journal := j }⟩

def deviceSlot (n : Nat) : Slot Rig Device :=
  entry (·.devices) (fun r xs => { r with devices := xs }) n {}

def platform : Platform Rig where
  devices := deviceSlot
  count r := r.devices.size
  driver := ⟨(·.driver), fun r d => { r with driver := d }⟩
  journal := journalSlot
  logger := ⟨(·.kernelLogger), fun r l => { r with kernelLogger := l }⟩

def newCpu (a : Option Automaton) (config : Config) (o : Options) : Act Rig Handle := do
  let c ← Act.ofExcept (Cpu.create a config o)
  let s ← add (·.cpus) (fun r xs => { r with cpus := xs }) c
  o.logger.log journalSlot c.ready
  return ⟨c.simulator s journalSlot, .cpu s⟩

def newIdle (size inputSize stateSize outputSize : Int64) (source : Option Pcg) :
    Act Rig (Simulator Rig) := do
  let i ← Act.ofExcept (Idle.create size source)
  let s ← add (·.idles) (fun r xs => { r with idles := xs }) i
  return Idle.simulator size inputSize stateSize outputSize s

def newScripted (size inputSize stateSize outputSize id : Int64)
    (failures : List (String × String)) : Act Rig Handle := do
  let i ← Act.ofExcept (Idle.create size none)
  let s ← add (·.scripts) (fun r xs => { r with scripts := xs }) ⟨i, id, failures, []⟩
  return ⟨Scripted.simulator size inputSize stateSize outputSize s, .scripted s⟩

def newPacked (sim : Simulator Rig) (bits : Int64) : Act Rig Handle := do
  let p ← Act.ofExcept (Packed.create sim bits)
  let s ← add (·.packs) (fun r xs => { r with packs := xs }) p
  return ⟨Packed.simulator sim p.bits s, .packed s⟩

def newComposite (sims : List (Simulator Rig)) (a : Composite.Arrangement) : Act Rig Handle := do
  let (first, cs, routes) ← Composite.build sims a
  let alloc ← Act.ofExcept (Allocator.create (Int64.ofNat routes.size))
  let s ← add (·.allocators) (fun r xs => { r with allocators := xs }) alloc
  return ⟨Composite.simulator first cs routes s, .composite routes cs.length⟩

def startKernel (k : Kernel) (start : Slot Rig Kernel → Act Rig Unit) : Act Rig Handle := do
  let s ← add (·.kernels) (fun r xs => { r with kernels := xs }) k
  start s
  return ⟨k.simulator s platform, .kernel s⟩

def newKernelOn (a : Option Automaton) (config : Config) (device : Option Nat) :
    Act Rig Handle := do
  match device with
  | none => throw (Kernel.backendError "open device" Provider.unfit)
  | some n =>
    let k ← Act.ofExcept (Kernel.prepare a config)
    startKernel k fun s => Kernel.attach s platform n

def newKernelFrom (a : Option Automaton) (config : Config) (p : Provider) : Act Rig Handle := do
  let n ← Act.ofExcept (p.device.mapError (Kernel.backendError "open device"))
  newKernelOn a config (some n)

def newKernel (a : Option Automaton) (config : Config) : Act Rig Handle := do
  let k ← Act.ofExcept (Kernel.prepare a config)
  startKernel k fun s => Kernel.openOwn s platform

def newAnyKernel (a : Option Automaton) (config : Config) (o : Options) : Act Rig Handle := do
  match (← MonadState.get).provider with
  | none => newKernel a config
  | some p =>
    match ← (newKernelFrom a config p).attempt with
    | .ok h => return h
    | .error e =>
      o.logger.log journalSlot
        ⟨Log.warn, "gpu: shared device unusable, opening own device", [("err", e.message)]⟩
      newKernel a config

def setLogger (h : Handle) (l : Logger) : Act Rig Unit :=
  match h.kind with
  | .cpu c => c.update fun c => { c with logger := l }
  | .kernel _ => platform.logger.write l
  | _ => pure ()

def context : Registry.Context Rig Handle := ⟨journalSlot, setLogger⟩

def cpuFactory : Factory Rig Handle := fun a c o => newCpu (some a) c o

def kernelFactory : Factory Rig Handle := fun a c o => newAnyKernel (some a) c o

def backends : Registry Rig Handle :=
  (({} : Registry Rig Handle).register "cpu" cpuFactory).register "gpu" kernelFactory

def trace (r : Rig) : List String :=
  r.driver.events.map ("vulkan: " ++ ·) ++ r.devices.toList.zipIdx.flatMap fun (d, k) =>
    (d.events.filter Device.Event.isNoted).map fun e => toString k ++ ": " ++ e.text

def settle (r : Rig) : Rig :=
  { r with
    journal := []
    driver := { r.driver with events := [] }
    devices := r.devices.map fun d => { d with events := [] } }

end Rig

end TiledAutomata
