import TiledAutomata.Emit.Block

/-!
# The characters of an indented source
-/

namespace TiledAutomata.Emit.Block

def lineChars (tab : List Char) (depth : Nat) (text : String) : List Char :=
  if text = "" then ['\n'] else (List.replicate depth tab).flatten ++ text.toList ++ ['\n']

mutual

def chars (tab : List Char) (depth : Nat) : Block → List Char
  | .line t => lineChars tab depth t
  | .nested h bs f =>
    lineChars tab depth h ++ charsAll tab (depth + 1) bs ++ lineChars tab depth f

def charsAll (tab : List Char) (depth : Nat) : List Block → List Char
  | [] => []
  | b :: bs => b.chars tab depth ++ charsAll tab depth bs

end

theorem toList_repeat (tab before : String) (depth : Nat) :
    (depth.repeat (· ++ tab) before).toList =
      before.toList ++ (List.replicate depth tab.toList).flatten := by
  induction depth with
  | zero => simp [Nat.repeat]
  | succ n ih => simp [Nat.repeat, ih, List.replicate_succ']

theorem toList_putLine (tab before text : String) (depth : Nat) :
    (putLine tab depth before text).toList =
      before.toList ++ lineChars tab.toList depth text := by
  by_cases h : text = ""
  · simp [putLine, lineChars, h]
  · simp [putLine, lineChars, h, toList_repeat]

mutual

theorem toList_put (tab before : String) (depth : Nat) : ∀ b : Block,
    (b.put tab depth before).toList = before.toList ++ b.chars tab.toList depth
  | .line t => toList_putLine tab before t depth
  | .nested h bs f => by
    simp only [put, toList_putLine, toList_putAll tab _ (depth + 1) bs, chars, List.append_assoc]

theorem toList_putAll (tab before : String) (depth : Nat) : ∀ bs : List Block,
    (putAll tab depth before bs).toList = before.toList ++ charsAll tab.toList depth bs
  | [] => by simp [putAll, charsAll]
  | b :: bs => by
    rw [putAll, toList_putAll tab _ depth bs, toList_put tab before depth b, charsAll,
      List.append_assoc]

end

theorem toList_source (tab : String) (bs : List Block) :
    (source tab bs).toList = charsAll tab.toList 0 bs := by
  rw [source, toList_putAll]
  rfl

end TiledAutomata.Emit.Block
