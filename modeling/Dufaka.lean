import Dufaka.Table
import Dufaka.RowLock
import Dufaka.Transaction
import Dufaka.ReadCommitted
import Dufaka.SessionLocks
import Dufaka.Machine
import Dufaka.Text
import Dufaka.Price
import Dufaka.Schema
import Dufaka.Settings
import Dufaka.Checkout
import Dufaka.Settlement
import Dufaka.BackOffice
import Dufaka.CheckoutEffect
import Dufaka.SettlementEffect
import Dufaka.BackOfficeEffect
import Dufaka.Operations
import Dufaka.Orders
import Dufaka.Reservations
import Dufaka.Payment
import Dufaka.Stock
import Dufaka.CouponUses
import Dufaka.StaleForms
import Dufaka.SalesVolume
import Dufaka.SettlementFrame
import Dufaka.WechatNotify
import Dufaka.SettingsRuns
import Dufaka.SiteCache
import Dufaka.ReceiptThrottle
import Dufaka.OrderPages
import Dufaka.Cashier
import Dufaka.CashierRuns
import Dufaka.CashierPayments
import Dufaka.PricePipeline
import Dufaka.Turns
import Dufaka.WaitingOrders
import Dufaka.PollRotation
import Dufaka.CashierAnswer
import Dufaka.ReceiptAccounting
import Dufaka.Installation
import Dufaka.InstallationRuns
import Dufaka.Encodings
import Dufaka.JsonText
import Dufaka.Tokens
import Dufaka.MoneyForms
import Dufaka.Lines
import Dufaka.CardImport
import Dufaka.Scan
import Dufaka.ExpireMinutes
import Dufaka.ShortMarker
import Dufaka.OrderLookup
import Dufaka.BuyerInputs
import Dufaka.PurchaseForm
import Dufaka.FixedWindow
import Dufaka.KeyMap
import Dufaka.RequestLimiter
import Dufaka.LoginLimiter
import Dufaka.ClientAddress
import Dufaka.CommitPoint
import Dufaka.LockOrder
import Dufaka.ShopSessions
import Dufaka.SessionEffects
import Dufaka.OwnerEffects
import Dufaka.ShopCommits
import Dufaka.CardPromises
import Dufaka.ShopLocks
import Dufaka.UnpaidQuota
import Dufaka.ShopLedgers
import Dufaka.PaidOrders
import Dufaka.CheckoutAcceptance
import Dufaka.PayChannels
import Dufaka.OpenChannels
import Dufaka.StoredSecrets
import Dufaka.BrowserOrders
import Dufaka.Browsers
import Dufaka.BrowserTurns
import Dufaka.StaticFiles
import Dufaka.FirstRun
