import StoredRoutine.Catalog.Encoding

/-!
# Writing catalogs

A `Sink` is something bytes can be written to in a monad, such as a file or the standard output.
A catalog is handed to it in one piece, after which the sink is flushed.
-/

namespace StoredRoutine

/-- Something that bytes can be written to. A step that fails says why. -/
structure Sink (m : Type → Type) where
  write : List UInt8 → m (Except String Unit)
  flush : m (Except String Unit)

/-- Writes a catalog to a sink. The first step that fails ends it. -/
def Catalog.writeTo {m : Type → Type} [Monad m] (sink : Sink m) (format : OutputFormat)
    (c : Catalog) : ExceptT Error m Unit := do
  let failed (problem : String) : Error := .ofCause (.io ("failed to write output: " ++ problem))
  ExceptT.mk ((·.mapError failed) <$> sink.write (c.encode format))
  ExceptT.mk ((·.mapError failed) <$> sink.flush)

end StoredRoutine
