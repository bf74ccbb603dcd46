import Dbus2Http.CxxRuntime
import Dbus2Http.OrderedMap
import Dbus2Http.SignatureGrammar
import Dbus2Http.TypedValue
import Dbus2Http.MessageDraft
import Dbus2Http.MessageCursor
import Dbus2Http.JsonValue
import Dbus2Http.SignatureUtils
import Dbus2Http.Entities
import Dbus2Http.Json2Message
import Dbus2Http.FilledValues
import Dbus2Http.FillWalk
import Dbus2Http.CompleteBody
import Dbus2Http.Rand2Json
import Dbus2Http.Message2Json
import Dbus2Http.ExtractedValues
import Dbus2Http.ExtractedArrays
import Dbus2Http.CodecRoundTrip
import Dbus2Http.RequestPath
import Dbus2Http.DbusSerialization
import Dbus2Http.DbusEnumerator
import Dbus2Http.PreorderWalk
import Dbus2Http.ScanExact
import Dbus2Http.TypedCalls
import Dbus2Http.UpdateThread
import Dbus2Http.FailedIntrospection
import Dbus2Http.CallHandler
import Dbus2Http.BracketMatching
import Dbus2Http.SplitterLaws
import Dbus2Http.NumeralText
import Dbus2Http.NumericStrings
import Dbus2Http.DictKeys
import Dbus2Http.SignalSocket
import Dbus2Http.PercentText
import Dbus2Http.MatchQuery
import Dbus2Http.RegistryInvariant
import Dbus2Http.GetHandlers
import Dbus2Http.CallVersions
import Dbus2Http.DescriptorReads
import Dbus2Http.FillTermination
import Dbus2Http.ContainerKinds
import Dbus2Http.DictObjects
import Dbus2Http.ScanTermination
import Dbus2Http.ArgumentNames
import Dbus2Http.InterfaceJson
import Dbus2Http.TryPage
import Dbus2Http.BinaryContent
import Dbus2Http.ConnectionOrder
import Dbus2Http.MethodArguments
import Dbus2Http.JsonGrammar
import Dbus2Http.TryErrors
import Dbus2Http.Broker
import Dbus2Http.EchoCalls
import Dbus2Http.SignalMessage
import Dbus2Http.SignalRelay
import Dbus2Http.UpdateRuns
import Dbus2Http.IntrospectionForm
import Dbus2Http.RegistryAnswers
import Dbus2Http.MatchRule
import Dbus2Http.MatchRulePage
import Dbus2Http.Markup
import Dbus2Http.UrlQuery
import Dbus2Http.WebPages
import Dbus2Http.PageLinks
import Dbus2Http.PageNavigation
import Dbus2Http.SignalLinks
import Dbus2Http.TryCalls
import Dbus2Http.FirstMatch
import Dbus2Http.Router
import Dbus2Http.UpdateExact
