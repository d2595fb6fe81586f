import RoutineBridge.Catalog.Definition

/-!
# Inquiries

An inquiry asks a catalog for definitions and sources and goes on with the answers. It says
nothing about when it is asked or by whom else: the same inquiry can be run to its end at once or
side by side with others.
-/

namespace RoutineBridge

/-- A computation that asks a catalog. -/
inductive Inquiry (α : Type) where
  | done (a : α)
  /-- Asks for the definition of a type that is used with some kind. -/
  | define (kind : Composite.Kind) (name : TypeName)
      (next : Except ResolveError Definition → Inquiry α)
  /-- Asks for the source of a package. -/
  | source (package : String) (next : Except CatalogError (Option String) → Inquiry α)

namespace Inquiry

variable {α β γ : Type}

/-- Goes on with another inquiry. -/
protected def bind : Inquiry α → (α → Inquiry β) → Inquiry β
  | done a, f => f a
  | define kind name next, f => define kind name fun answer => (next answer).bind f
  | source package next, f => source package fun answer => (next answer).bind f

instance : Monad Inquiry where
  pure := done
  bind := Inquiry.bind

@[simp] theorem bind_done (a : α) (f : α → Inquiry β) : (done a).bind f = f a := rfl

theorem bind_assoc (i : Inquiry α) (f : α → Inquiry β) (g : β → Inquiry γ) :
    (i.bind f).bind g = i.bind fun a => (f a).bind g := by
  induction i with
  | done a => rfl
  | define kind name next ih => simp only [Inquiry.bind, ih]
  | source package next ih => simp only [Inquiry.bind, ih]

end Inquiry

end RoutineBridge
