import Augment.Maker

/-!
# The sample class

The class `Car` with two fields and three constructors, on which augmentation is shown:

    public class Car {
        private String name;
        private int price;
        private Car(String name) { this.name = name; }
        public Car(int price) { this.price = price; }
        protected Car(String name, int price) { this.name = name; this.price = price; }
    }

It has no constructor without parameters and no accessors, so each marker has something to add.
-/

namespace Augment.Sample

/-- The markers that `Car` carries by default. -/
def carMarkers : List Marker :=
  [.getter, .noArgsConstructor .privateAccess]

/-- A constructor that stores each parameter in the field of the same name. -/
def storing (access : AccessLevel) (params : List (String × String)) :
    Building (MethodDecl Symbol) := do
  let parts ← params.mapM fun (name, type) => do
    let name ← Building.name name
    let type ← Building.typeNamed type
    let store : Stmt Symbol := .exec (.assign (.select .receiver name) (.ident name))
    return ((⟨name, type⟩ : Param Symbol), store)
  Building.constructor (.ofAccess access) (parts.map (·.1)) ⟨1, parts.map (·.2)⟩

/-- The class `Car`. -/
def carClass (markers : List Marker) : Building (ClassDecl Symbol) := do
  let name ← Building.field (← Building.name "name") (← Building.typeNamed "String")
    (.ofAccess .privateAccess)
  let price ← Building.field (← Building.name "price") (← Building.typeNamed "int")
    (.ofAccess .privateAccess)
  let car ← Building.name "Car"
  let ofName ← storing .privateAccess [("name", "String")]
  let ofPrice ← storing .publicAccess [("price", "int")]
  let ofBoth ← storing .protectedAccess [("name", "String"), ("price", "int")]
  Building.type car .classType (.ofAccess .publicAccess) markers
    [.field name, .field price, .method ofName, .method ofPrice, .method ofBoth]

/-- The source file of `Car`. -/
def carUnit (markers : List Marker) : Building (CompilationUnit Symbol) := do
  let car ← carClass markers
  return { fileName := "Car.java", package := some "com.app", origin := .source, types := [car] }

/-- A public class without members. -/
def plainClass (name : String) : Building (ClassDecl Symbol) := do
  Building.type (← Building.name name) .classType (.ofAccess .publicAccess)

end Augment.Sample
