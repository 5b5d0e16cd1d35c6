import HeaderMake.Collection
import HeaderMake.ObjectPath

/-!
# Object lists

A group may name a variable that holds its objects.  The variable is written with one
object a line, the lines aligned below each other, and the lists are written in an order
of their own: first those of the groups that the configuration names, then the others.
-/

namespace HeaderMake

/-- The column in which the entries of an object list begin. -/
def objectColumn : Nat := 14

/-- What stands between two entries of an object list. -/
def objectSeparator : Text :=
  " \\\n".toList ++ List.replicate objectColumn ' '

/-- The text of the variable that holds the objects of the files. -/
def Layout.objectList (layout : Layout) (name : Text) (files : List Path) : Text :=
  (name ++ " =".toList).rightpad objectColumn ' ' ++
    List.intercalate objectSeparator (files.map layout.objectFile) ++ "\n\n".toList

/-- The groups in the order of their object lists.  Each name in `order` stands for the
first group of that name; the groups that it does not name follow as they are. -/
def objectListOrder (order : List Text) (groups : List CollectedGroup) :
    List CollectedGroup :=
  order.filterMap (fun name => groups.find? (·.group.name = name)) ++
    groups.filter (·.group.name ∉ order)

/-- The object lists of the groups that have a variable. -/
def Layout.objectLists (layout : Layout) (order : List Text) (groups : List CollectedGroup) :
    List Text :=
  (objectListOrder order groups).filterMap fun collected =>
    collected.group.objectsVariable.map fun name =>
      layout.objectList name collected.files

end HeaderMake
