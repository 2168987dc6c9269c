import Stacktrace.Text.Basic

/-!
Which type names a reader knows. A failure of a type that it does not know is read as a surrogate.
-/

namespace Stacktrace

structure KnownTypes where
  names : List Text

namespace KnownTypes

def empty : KnownTypes := ⟨[]⟩

def insert (types : KnownTypes) (name : Text) : KnownTypes := ⟨name :: types.names⟩

def ofList (names : List Text) : KnownTypes := names.foldl insert empty

def contains (types : KnownTypes) (name : Text) : Bool := name ∈ types.names

end KnownTypes

structure Resolver where
  resolves : Text → Bool

namespace Resolver

def any : Resolver := ⟨fun _ => true⟩

def known (types : KnownTypes) : Resolver := ⟨types.contains⟩

def startingWith (start : Text) : Resolver := ⟨fun name => name.startsWith start⟩

def resolve? (r : Resolver) (name : Text) : Option Text := if r.resolves name then some name else none

end Resolver
end Stacktrace
