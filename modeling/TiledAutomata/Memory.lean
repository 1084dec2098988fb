/-!
# What fits into memory

A request for memory that no program can address stops the program, and so does one for
a negative number of items.
-/

namespace TiledAutomata.Memory

def limit : Int := Int.pow 2 48

def admits (count : Int) (bytes : Nat) : Bool := 0 ≤ count && count * bytes ≤ limit

end TiledAutomata.Memory
