import RpcClient.InvokerSettings
import RpcClient.Routing
import RpcClient.Setting.Decoder
import RpcClient.Setting.Variable
import RpcClient.Toml.Document

/-!
The configuration of a process: its invokers, its routes and what it logs. It is a TOML document,
whose texts may refer to variables of the environment, and variables may override what it says.
-/
namespace RpcClient

structure Configuration where
  /-- The settings of the invokers, sorted by name. -/
  invokers : List (String × InvokerSettings) := []
  routing : RoutingSettings := {}
  /-- Which events are logged. -/
  filter : String := "info"
  deriving Inhabited

inductive ConfigurationFlaw where
  | fileNotFound (path : String)
  | malformed
  | misfit (misfit : Setting.Misfit)
  | noInvoker (name : String)
  deriving Inhabited

def ConfigurationFlaw.message : ConfigurationFlaw → String
  | .fileNotFound path => s!"Configuration file not found: {path}"
  | .malformed => "Configuration error: malformed document"
  | .misfit cause => s!"Configuration error: {cause.message}"
  | .noInvoker name => s!"Invalid configuration: no invoker named {name}"

section
open Setting.Decoder

def CallbackSettings.ofSetting : Setting.Decoder CallbackSettings :=
  record
    [required "name" string fun name settings => { settings with name },
      field "config" json fun config settings => { settings with config }]
    { name := "" }

def ChannelSettings.ofSetting : Setting.Decoder ChannelSettings :=
  exactRecord
    [required "protocol" text fun protocol settings => { settings with protocol },
      field "listener" text fun listener settings => { settings with listener },
      field "size" natural fun size settings => { settings with size },
      field "ext" (entries json) fun ext settings => { settings with ext }]
    { protocol := "" }

/-- Reads a list of settings, or else the settings of one channel. -/
def ChannelChoice.ofSetting : Setting.Decoder ChannelChoice := fun setting => do
  match ← either (list ChannelSettings.ofSetting) ChannelSettings.ofSetting setting with
  | .inl settings => return .many settings
  | .inr settings => return .one settings

def InvokerSettings.ofSetting : Setting.Decoder InvokerSettings :=
  record
    [field "before_invoke" (list CallbackSettings.ofSetting) fun before settings =>
        { settings with beforeInvoke := before },
      field "after_invoke" (list CallbackSettings.ofSetting) fun after settings =>
        { settings with afterInvoke := after },
      field "total_channels" natural fun total settings => { settings with totalChannels := total },
      field "channel" ChannelChoice.ofSetting fun channel settings =>
        { settings with channel := some channel }]
    {}

def VirtualHost.ofSetting : Setting.Decoder VirtualHost :=
  record
    [required "domains" (list string) fun domains host => { host with domains },
      field "routes" (list string) fun routes host => { host with routes }]
    { domains := [] }

def RoutingSettings.ofSetting : Setting.Decoder RoutingSettings :=
  record
    [field "virtual_hosts" (list VirtualHost.ofSetting) fun hosts settings =>
        { settings with virtualHosts := hosts },
      field "clusters" (entries (list string)) fun clusters settings => { settings with clusters }]
    {}

namespace Configuration

def filterOfSetting : Setting.Decoder String :=
  record [field "filter" string fun filter _ => filter] ({} : Configuration).filter

def ofSetting : Setting.Decoder Configuration :=
  record
    [field "invokers" (entries InvokerSettings.ofSetting) fun invokers configuration =>
        { configuration with invokers },
      field "routing" RoutingSettings.ofSetting fun routing configuration =>
        { configuration with routing },
      field "logging" filterOfSetting fun filter configuration => { configuration with filter }]
    {}

end Configuration
end

namespace Configuration

/-- Reads a document, with the references in its texts replaced. -/
def settingOf (env : Environment) (document : String) : Except ConfigurationFlaw Setting :=
  match Toml.parse document with
  | some setting => .ok (setting.interpolate env)
  | none => .error .malformed

def parse (env : Environment) (document : String) : Except ConfigurationFlaw Configuration := do
  (ofSetting (← settingOf env document)).mapError .misfit

/-- Reads a configuration from the bytes of the file at `path`, if there are any. Variables override
what the file says. -/
def load (env : Environment) (path : String) (file : Option Bytes) :
    Except ConfigurationFlaw Configuration := do
  match file.map Utf8.decode with
  | some (.ok document) =>
    let setting ← settingOf env document
    (ofSetting (setting.overlay (Variable.settings env))).mapError .misfit
  | _ => throw (.fileNotFound path)

def invoker (configuration : Configuration) (name : String) :
    Except ConfigurationFlaw InvokerSettings :=
  match Entries.get? name configuration.invokers with
  | some settings => .ok settings
  | none => .error (.noInvoker name)

end Configuration
end RpcClient
