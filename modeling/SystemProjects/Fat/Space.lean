import SystemProjects.Fat.Copies
import SystemProjects.Fat.KernelHeap
import SystemProjects.Fat.Truncate

/-!
# The free clusters of a mounted volume

A cluster that is used stays so, whatever is truncated or deleted. Only a write beyond the size of its file links any,
and when there are none left it fails for good.
-/

open SystemProjects.Memory SystemProjects.LiveBlocks SystemProjects.Run

namespace SystemProjects.Fat

variable {v v' : Volume} {file file' : FatFile} {buffer buffer' : Mem} {n : Nat} {ret : Int}

/-! ## Volumes -/

/-- Clusters that are used in `fat` are used in `fat'`. -/
def StaysUsed (fat fat' : Int → Int) : Prop := ∀ c, fat c ≠ fatFreecluster → fat' c ≠ fatFreecluster

namespace KernelHeap

variable {m : Mount} {k k' k1 : Kernel} {fat : Int → Int} {a e : Nat} {b : Content} {answer : Answer}

def FatIs (m : Mount) (k : Kernel) (fat : Int → Int) : Prop := k.heap m.fatData = some (.fatData fat)

def Full (m : Mount) (fat : Int → Int) : Prop := ∀ c < m.totalClusters, fat (c : Nat) ≠ fatFreecluster

def Extends (k : Kernel) : Action → Prop
  | .write a _ n => ∃ file, k.heap a = some (.file file) ∧ file.entry.fileSize < dword (file.currentPos + n)
  | _ => False

/-- What a step does to the FAT. -/
structure Spends (m : Mount) (t : Transition Kernel Action Answer) (pre post : Int → Int) : Prop where
  before : FatIs m t.pre pre
  after : FatIs m t.post post
  used : StaysUsed pre post
  same : ¬ Extends t.pre t.act → post = pre
  full : Full m pre → post = pre ∧ (Extends t.pre t.act → t.out = .ret FAIL)

/-! ## The heap -/

end KernelHeap

end SystemProjects.Fat
