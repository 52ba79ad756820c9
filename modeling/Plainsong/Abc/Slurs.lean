import Plainsong.Table
/- The slurs that are open, by overlay. -/
namespace Plainsong.Abc

abbrev Slurs := Table Int (List Int)

namespace Slurs

def count (s : Slurs) : Nat := s.foldl (fun n (_, ns) => n + ns.length) 0

def start (s : Slurs) (overlay : Int) : Int × Slurs :=
  let number : Int := s.count + 1
  (number, Table.put overlay ((Table.find? overlay s).getD [] ++ [number]) s)

def stop? (s : Slurs) (overlay : Int) : Option (Int × Slurs) :=
  let open_ := (Table.find? overlay s).getD []
  open_.getLast?.map fun n => (n, Table.put overlay open_.dropLast s)

end Slurs

end Plainsong.Abc
