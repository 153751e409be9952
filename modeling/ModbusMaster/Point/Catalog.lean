import ModbusMaster.Point.Basic
import Std.Data.TreeMap
namespace ModbusMaster

structure Catalog where
  points : Std.TreeMap String Point

namespace Catalog

def add (d : Catalog) (p : Point) : Except Fault Catalog :=
  if d.points.contains p.key then .error (.configuration ("Duplicate point " ++ p.key))
  else .ok ⟨d.points.insert p.key p⟩

-- No two points share a key.
def ofPoints (ps : List Point) : Except Fault Catalog := ps.foldlM add ⟨{}⟩

def lookup? (d : Catalog) (key : String) : Option Point := d.points[key]?
def toList (d : Catalog) : List Point := d.points.values
def len (d : Catalog) : Nat := d.points.size

end Catalog
end ModbusMaster
