import Wiring.Json.Decoding
import Wiring.Settings

/-! Settings in documents.  Every field may be left out and has its default then. -/

namespace Wiring

open Json (Decoder Record)

namespace KnownTypes

def toJson (k : KnownTypes) : Json := .object (k.names.map fun (key, name) => (key, .string name))

def decode : Decoder KnownTypes :=
  Record.decode
    { title := "struct KnownTypes"
      fields :=
        [("list", Decoder.string.into fun list k => { k with list }),
          ("set", Decoder.string.into fun set k => { k with set }),
          ("collection", Decoder.string.into fun collection k => { k with collection }),
          ("top_type", Decoder.string.into fun top k => { k with top })] }
    {}

end KnownTypes

namespace ResolverSettings

def toJson (r : ResolverSettings) : Json :=
  .object
    [("known_types", r.knownTypes.toJson), ("parallel", .bool r.parallel),
      ("memoize_cycle_search", .bool r.memoizeCycleSearch),
      ("warn_on_unresolved_root_sockets", .bool r.warnOnUnresolvedRootSockets)]

def decode : Decoder ResolverSettings :=
  Record.decode
    { title := "struct ResolverConfig"
      fields :=
        [("known_types", KnownTypes.decode.into fun knownTypes r => { r with knownTypes }),
          ("parallel", Decoder.bool.into fun parallel r => { r with parallel }),
          ("memoize_cycle_search", Decoder.bool.into fun memoizeCycleSearch r =>
            { r with memoizeCycleSearch }),
          ("warn_on_unresolved_root_sockets", Decoder.bool.into
            fun warnOnUnresolvedRootSockets r => { r with warnOnUnresolvedRootSockets })] }
    {}

end ResolverSettings

namespace LoggingSettings

def toJson (l : LoggingSettings) : Json :=
  .object [("level", .string l.level), ("json_format", .bool l.jsonFormat)]

def decode : Decoder LoggingSettings :=
  Record.decode
    { title := "struct LoggingConfig"
      fields :=
        [("level", Decoder.string.into fun level l => { l with level }),
          ("json_format", Decoder.bool.into fun jsonFormat l => { l with jsonFormat })] }
    {}

end LoggingSettings

namespace Settings

def toJson (s : Settings) : Json :=
  .object [("resolver", s.resolver.toJson), ("logging", s.logging.toJson)]

def decode : Decoder Settings :=
  Record.decode
    { title := "struct AppConfig"
      fields :=
        [("resolver", ResolverSettings.decode.into fun resolver s => { s with resolver }),
          ("logging", LoggingSettings.decode.into fun logging s => { s with logging })] }
    {}

end Settings

end Wiring
