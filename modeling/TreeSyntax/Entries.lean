/-!
# Named entries in order

A list of entries keeps the order in which names first came up.  Giving a name a new value keeps
its place.
-/

namespace TreeSyntax

abbrev Entries (α : Type) : Type := List (String × α)

namespace Entries

variable {α : Type}

def names (entries : Entries α) : List String :=
  entries.map Prod.fst

@[simp] theorem names_nil : names ([] : Entries α) = [] := rfl

@[simp] theorem names_cons (entry : String × α) (entries : Entries α) :
    names (entry :: entries) = entry.1 :: names entries := rfl

@[simp] theorem names_append (first second : Entries α) :
    names (first ++ second) = names first ++ names second := List.map_append

def find? (entries : Entries α) (name : String) : Option α :=
  entries.lookup name

def has (entries : Entries α) (name : String) : Bool :=
  entries.any fun entry => entry.1 == name

/-- Gives a name a value, in the name's place if it has one and at the end otherwise. -/
def put (entries : Entries α) (name : String) (value : α) : Entries α :=
  match entries with
  | [] => [(name, value)]
  | entry :: rest => if entry.1 == name then (name, value) :: rest else entry :: put rest name value

def putAll (entries more : Entries α) : Entries α :=
  more.foldl (fun entries entry => put entries entry.1 entry.2) entries

/-- Every name in the place of its first and with the value of its last occurrence. -/
def merge (written : Entries α) : Entries α :=
  putAll [] written

end Entries

end TreeSyntax
