import AmneziaVpnBot.Queue.Claims
import AmneziaVpnBot.Queue.Workers
import AmneziaVpnBot.Review.Race
import AmneziaVpnBot.Review.Handlers
import AmneziaVpnBot.Queue.Attempts
import AmneziaVpnBot.Support.Active
import AmneziaVpnBot.Lifecycle.OpenJobs
import AmneziaVpnBot.Lifecycle.Orders
import AmneziaVpnBot.Lifecycle.Status
import AmneziaVpnBot.Lifecycle.Grace
import AmneziaVpnBot.Lifecycle.Redelivery
import AmneziaVpnBot.Lifecycle.Unpaid
import AmneziaVpnBot.Lifecycle.Paid
import AmneziaVpnBot.Lifecycle.Credits
import AmneziaVpnBot.Worker.Batch
import AmneziaVpnBot.Scheduler.Reminders
import AmneziaVpnBot.Bot.Keyboards
import AmneziaVpnBot.Provision.Untrusted
import AmneziaVpnBot.Vpnctl.Rollback
import AmneziaVpnBot.Vpnctl.Agree
import AmneziaVpnBot.Deploy.Crash
import AmneziaVpnBot.Vpnctl.Access
import AmneziaVpnBot.Vpnctl.RoundTrip
import AmneziaVpnBot.Vpnctl.Obfuscation
import AmneziaVpnBot.Vpnctl.Exclusive
import AmneziaVpnBot.Vpnctl.Packets
import AmneziaVpnBot.Bot.Throttling
import AmneziaVpnBot.Config.Servers
import AmneziaVpnBot.Vpnctl.Off
import AmneziaVpnBot.Wire.Calls
import AmneziaVpnBot.Deploy.Wire
import AmneziaVpnBot.Deploy.Configs
import AmneziaVpnBot.Queue.Waiting
import AmneziaVpnBot.Bot.Chats
import AmneziaVpnBot.Bot.Confined
import AmneziaVpnBot.Bot.Blocked
import AmneziaVpnBot.Bot.Approved
